import JamVM.Foundation.Transition

/-! # Class initialisation

`initClass` run by any number of threads, each with a stack of activations. The
code between `objectLock` and `objectUnlock` is one step, every unsynchronised
read of a class's state another. Java code (`<clinit>`, class loaders run by
`resolveSingleConstant`, the constructors of exceptions) may initialise any class
and may raise and catch exceptions, in any order.
-/

namespace JamVM.Class.Init

open Function

inductive ClassState
  | loaded
  | linked
  | bad
  | initing
  | inited
  | array
  | prim (index : Nat)
  deriving DecidableEq

def ClassState.value : ClassState → Nat
  | .loaded => 1
  | .linked => 2
  | .bad => 3
  | .initing => 4
  | .inited => 5
  | .array => 6
  | .prim index => 7 + index

inductive Kind
  | ordinary
  | array
  | prim (index : Nat)
  deriving DecidableEq

def Kind.created : Kind → ClassState
  | .ordinary => .loaded
  | .array => .array
  | .prim index => .prim index

/-- What `initClass` reads of the classes: `constants` counts the static fields
with a constant value. -/
structure Program (Class : Type u) where
  kind : Class → Kind
  super : Class → Option Class
  isInterface : Class → Bool
  constants : Class → Nat
  hasClinit : Class → Bool

def Program.superclass {Class : Type u} (program : Program Class) (target : Class) :
    Option Class :=
  if program.isInterface target then none else program.super target

inductive Throwable (Class : Type u)
  | noClassDefFoundError (name : Class)
  | other (object : Nat)
  deriving DecidableEq

inductive Location (Class : Type u)
  | check
  | link
  /-- before `objectLock`, or about to test the state again after a wait -/
  | enter
  | waiting
  /-- in the constructor of the `NoClassDefFoundError` for a bad class -/
  | signalling
  | superclass
  | superCalled
  | constants (remaining : Nat)
  | clinit
  | finished
  | wrap (exception : Throwable Class)
  | setState (success : Bool)
  | ret (res : Option Class)
  deriving DecidableEq

def Location.runsJava {Class : Type u} : Location Class → Bool
  | .signalling | .clinit | .wrap _ => true
  | .constants remaining => remaining ≠ 0
  | _ => false

/-- A call of `initClass`. The serial number counts the calls begun before it. -/
structure Activation (Class : Type u) where
  target : Class
  serial : Nat
  location : Location Class
  deriving DecidableEq

inductive Event (Thread : Type u) (Class : Type v)
  | initing (thread : Thread) (target : Class)
  | started (target : Class)
  | completed (target : Class) (serial : Nat) (success : Bool)
  | returned (thread : Thread) (target : Class) (serial : Nat) (res : Option Class)
      (exception : Option (Throwable Class))
  deriving DecidableEq

/-- `initiator` is the call that set `CLASS_INITING`, `history` has the newest
event first; neither is read by the code. -/
structure State (Thread : Type u) (Class : Type v) where
  status : Class → ClassState
  initingTid : Class → Option Thread
  initiator : Class → Option Nat
  stack : Thread → List (Activation Class)
  exception : Thread → Option (Throwable Class)
  calls : Nat
  history : List (Event Thread Class)

inductive Action (Thread : Type u) (Class : Type v)
  | call (thread : Thread) (target : Class)
  | raise (thread : Thread) (exception : Throwable Class)
  | catch (thread : Thread)
  /-- The thread's innermost activation goes on, or the Java code on top of it
  ends. `wrapper` is the object made for an exception thrown by `<clinit>`. -/
  | proceed (thread : Thread) (wrapper : Option (Throwable Class))
  | link (target : Class)

section
variable {Thread : Type u} {Class : Type v} [DecidableEq Thread] [DecidableEq Class]

namespace State

variable (state : State Thread Class)

def setStack (thread : Thread) (stack : List (Activation Class)) : State Thread Class :=
  { state with stack := update state.stack thread stack }

def setStatus (target : Class) (status : ClassState) : State Thread Class :=
  { state with status := update state.status target status }

def setException (thread : Thread) (exception : Option (Throwable Class)) : State Thread Class :=
  { state with exception := update state.exception thread exception }

def record (event : Event Thread Class) : State Thread Class :=
  { state with history := event :: state.history }

def push (thread : Thread) (target : Class)
    (below : List (Activation Class)) : State Thread Class :=
  { state.setStack thread (⟨target, state.calls, .check⟩ :: below) with
    calls := state.calls + 1 }

def begin (thread : Thread) (target : Class) (serial : Nat) : State Thread Class :=
  { (state.setStatus target .initing).record (.initing thread target) with
    initingTid := update state.initingTid target (some thread)
    initiator := update state.initiator target (some serial) }

def runsJava (thread : Thread) : Bool :=
  match state.stack thread with
  | [] => true
  | act :: _ => act.location.runsJava

end State

def advance (program : Program Class) (state : State Thread Class) (thread : Thread)
    (act : Activation Class) (below : List (Activation Class))
    (wrapper : Option (Throwable Class)) : Option (State Thread Class) :=
  let target := act.target
  let goto (state : State Thread Class) (location : Location Class) :=
    state.setStack thread (⟨target, act.serial, location⟩ :: below)
  match act.location with
  | .check =>
    if ClassState.inited.value ≤ (state.status target).value then
      some (goto state (.ret (some target)))
    else
      some (goto state .link)
  | .link =>
    if ClassState.linked.value ≤ (state.status target).value then some (goto state .enter) else none
  | .enter =>
    if state.status target = .initing then
      if state.initingTid target = some thread then
        some (goto state (.ret (some target)))
      else
        some (goto state .waiting)
    else if ClassState.inited.value ≤ (state.status target).value then
      some (goto state (.ret (some target)))
    else if state.status target = .bad then
      some (goto state .signalling)
    else
      some (goto (state.begin thread target act.serial) .superclass)
  | .waiting => some (goto state .enter)
  | .signalling =>
    some (goto (state.setException thread (some (.noClassDefFoundError target))) (.ret none))
  | .superclass =>
    match program.superclass target with
    | some super =>
      if state.status super ≠ .inited then
        some (state.push thread super (⟨target, act.serial, .superCalled⟩ :: below))
      else
        some (goto state (.constants (program.constants target)))
    | none => some (goto state (.constants (program.constants target)))
  | .superCalled =>
    if state.exception thread ≠ none then
      some (goto state (.setState false))
    else
      some (goto state (.constants (program.constants target)))
  | .constants (remaining + 1) => some (goto state (.constants remaining))
  | .constants 0 =>
    if program.hasClinit target then
      some (goto (state.record (.started target)) .clinit)
    else
      some (goto state .finished)
  | .clinit => some (goto state .finished)
  | .finished =>
    match state.exception thread with
    | some exception => some (goto (state.setException thread none) (.wrap exception))
    | none => some (goto state (.setState true))
  | .wrap exception =>
    some (goto (state.setException thread (some (wrapper.getD exception))) (.setState false))
  | .setState success =>
    let state := state.setStatus target (if success then .inited else .bad)
    some (goto (state.record (.completed target act.serial success))
      (.ret (if success then some target else none)))
  | .ret res =>
    some ((state.setStack thread below).record
      (.returned thread target act.serial res (state.exception thread)))

variable (program : Program Class)

def step (state : State Thread Class) : Action Thread Class → Option (State Thread Class)
  | .call thread target =>
    if state.runsJava thread then some (state.push thread target (state.stack thread)) else none
  | .raise thread exception =>
    if state.runsJava thread then some (state.setException thread (some exception)) else none
  | .catch thread => if state.runsJava thread then some (state.setException thread none) else none
  | .proceed thread wrapper =>
    match state.stack thread with
    | [] => none
    | act :: below => advance program state thread act below wrapper
  | .link target =>
    if state.status target = .loaded ∧ ∀ super ∈ program.superclass target,
        ClassState.linked.value ≤ (state.status super).value then
      some (state.setStatus target .linked)
    else
      none

def start : State Thread Class where
  status target := (program.kind target).created
  initingTid _ := none
  initiator _ := none
  stack _ := []
  exception _ := none
  calls := 0
  history := []

def system : TransitionSystem (State Thread Class) (Action Thread Class) where
  initial state := state = start program
  step := step program

end

end JamVM.Class.Init
