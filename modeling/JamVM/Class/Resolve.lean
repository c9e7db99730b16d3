import JamVM.Foundation.Transition
import Mathlib.Tactic.Common

/-! # Resolution of one constant-pool entry

The type byte and the info word of an entry are separate shared locations, and
each read or write of one of them is a step. The four resolvers and the string
case of `resolveSingleConstant` follow one scheme and differ in the tags and in
how often they read the info word. The memory is sequentially consistent.
-/

namespace JamVM.Class.Resolve

inductive Tag
  | classref
  | fieldref
  | string
  | methodType
  | methodHandle
  | locked
  | resolvedClass
  | resolved
  | resolvedString
  | resolvedMethodType
  | resolvedMethodHandle
  deriving DecidableEq

inductive Word (Object : Type u)
  | indices (bits : Nat)
  | pointer (object : Object)
  deriving DecidableEq

/-- A resolver: the tag it resolves, the tag it publishes, and how many indices
it takes from the info word, each with a read of its own. -/
structure Resolver where
  unresolved : Tag
  published : Tag
  reads : Nat
  deriving DecidableEq

def resolveClass : Resolver := ⟨.classref, .resolvedClass, 1⟩

def resolveField : Resolver := ⟨.fieldref, .resolved, 2⟩

def resolveMethodType : Resolver := ⟨.methodType, .resolvedMethodType, 1⟩

def resolveMethodHandle : Resolver := ⟨.methodHandle, .resolvedMethodHandle, 2⟩

def resolveString : Resolver := ⟨.string, .resolvedString, 1⟩

inductive Dispatch
  | retry
  | call (resolver : Resolver)
  | inline (resolver : Resolver)
  | fetch
  deriving DecidableEq

def resolveSingleConstant : Tag → Dispatch
  | .locked => .retry
  | .classref => .call resolveClass
  | .methodType => .call resolveMethodType
  | .methodHandle => .call resolveMethodHandle
  | .string => .inline resolveString
  | _ => .fetch

structure Entry where
  resolver : Resolver
  known : resolver ∈
    [resolveClass, resolveField, resolveMethodType, resolveMethodHandle, resolveString]
  indices : Nat

inductive Location (Object : Type u)
  | dispatch
  | test
  | load
  | read (words : List (Word Object))
  | retest (words : List (Word Object))
  | lookup
  | lock (object : Object)
  | publish (object : Object)
  | release (object : Object)
  | finish (res : Option (Word Object))
  | fetch (success : Bool)
  deriving DecidableEq

structure Call (Object : Type u) where
  single : Bool
  resolver : Resolver
  location : Location Object
  deriving DecidableEq

/-- What a call does with the info words it has read. A call without a result ends with an
exception pending, and so does `failed`, where `resolveSingleConstant` returns the info word
all the same. -/
inductive Event (Thread : Type u) (Object : Type v)
  | usedIndices (words : List (Word Object))
  | usedPointer (word : Word Object)
  | returned (thread : Thread) (res : Option (Word Object))
  | failed (thread : Thread) (word : Word Object)
  deriving DecidableEq

/-- `found` is the first object that a lookup has returned; the code does not
read it, nor the history. -/
structure State (Thread : Type u) (Object : Type v) where
  tag : Tag
  info : Word Object
  call : Thread → Option (Call Object)
  found : Option Object
  history : List (Event Thread Object)

inductive Action (Thread : Type u) (Object : Type v)
  | resolve (thread : Thread)
  | resolveSingleConstant (thread : Thread)
  /-- The thread's call goes on; `object` is what its lookup finds, if it is at
  its lookup. -/
  | proceed (thread : Thread) (object : Option Object)

section
variable {Thread : Type u} {Object : Type v} [DecidableEq Thread]

namespace State

def setCall (state : State Thread Object) (thread : Thread) (call : Option (Call Object)) :
    State Thread Object :=
  { state with call := Function.update state.call thread call }

def record (state : State Thread Object) (event : Event Thread Object) :
    State Thread Object :=
  { state with history := event :: state.history }

end State

def Call.retry (call : Call Object) : Location Object :=
  if call.resolver = resolveString then .dispatch else .test

def advance (state : State Thread Object) (thread : Thread) (call : Call Object)
    (object : Option Object) : State Thread Object :=
  let goto (state : State Thread Object) (location : Location Object) :=
    state.setCall thread (some { call with location })
  match call.location with
  | .dispatch =>
    match resolveSingleConstant state.tag with
    | .retry => state
    | .call resolver => state.setCall thread (some { call with resolver, location := .test })
    | .inline resolver => state.setCall thread (some { call with resolver, location := .read [] })
    | .fetch => goto state (.fetch true)
  | .test =>
    if state.tag = .locked then
      state
    else if state.tag = call.resolver.published then
      goto state .load
    else if state.tag = call.resolver.unresolved then
      goto state (.read [])
    else
      goto state (.finish none)
  | .load => goto (state.record (.usedPointer state.info)) (.finish (some state.info))
  | .read words =>
    let words := words ++ [state.info]
    goto state (if words.length < call.resolver.reads then .read words else .retest words)
  | .retest words =>
    if state.tag ≠ call.resolver.unresolved then
      goto state call.retry
    else
      goto (state.record (.usedIndices words)) .lookup
  | .lookup =>
    match object with
    | some object => goto { state with found := some (state.found.getD object) } (.lock object)
    | none => goto state (.finish none)
  | .lock object => goto { state with tag := .locked } (.publish object)
  | .publish object => goto { state with info := .pointer object } (.release object)
  | .release object =>
    goto { state with tag := call.resolver.published } (.finish (some (.pointer object)))
  | .finish res =>
    if call.single then
      goto state (.fetch res.isSome)
    else
      (state.record (.returned thread res)).setCall thread none
  | .fetch success =>
    if success then
      ((state.record (.usedPointer state.info)).record
        (.returned thread (some state.info))).setCall thread none
    else
      (state.record (.failed thread state.info)).setCall thread none

def step (entry : Entry) (state : State Thread Object) :
    Action Thread Object → Option (State Thread Object)
  | .resolve thread =>
    -- The string case is part of `resolveSingleConstant`.
    if state.call thread = none ∧ entry.resolver ≠ resolveString then
      some (state.setCall thread (some ⟨false, entry.resolver, .test⟩))
    else
      none
  | .resolveSingleConstant thread =>
    if state.call thread = none ∧ entry.resolver ≠ resolveField then
      some (state.setCall thread (some ⟨true, entry.resolver, .dispatch⟩))
    else
      none
  | .proceed thread object => (state.call thread).map fun call => advance state thread call object

def start (entry : Entry) : State Thread Object where
  tag := entry.resolver.unresolved
  info := .indices entry.indices
  call _ := none
  found := none
  history := []

def system (entry : Entry) : TransitionSystem (State Thread Object) (Action Thread Object) where
  initial state := state = start entry
  step := step entry

end

end JamVM.Class.Resolve
