import Mathlib.Data.List.Nodup
import JamVM.Foundation.Transition

/-! # Synchronized methods

Entering and leaving methods, with the object that is locked on entry and the one that is
unlocked at the end. A method is entered from bytecode or by a C function that runs it with
`executeJava`; it is left by a return, by an exception that unwinds its frame, or when the
native function returns. Each of these finds the object to unlock in its own way.
-/

namespace JamVM.Interp.Synchronized

open Prod (ext fst mk)
open Function List

structure ExceptionTableEntry where
  startPc : Nat
  endPc : Nat
  handlerPc : Nat
  catchType : Nat

structure MethodBlock (Ref : Type u) where
  isSynchronized : Bool
  isStatic : Bool
  isNative : Bool
  classObject : Ref
  exceptionTable : List ExceptionTableEntry

structure Frame (Ref : Type u) where
  mb : MethodBlock Ref
  lvars : Nat → Ref
  lastPc : Nat
  serial : Nat

/-- A call of `executeJava`, or of a native method, by `executeMethodVaList`,
`executeMethodList` or `invoke`. The last frame is the one of the method called; there is a
dummy frame behind it. -/
structure Activation (Ref : Type u) where
  ob : Option Ref
  frames : List (Frame Ref)
  this : Ref
  /-- A native method called from bytecode, and the variable `sync_ob`. -/
  native : Option (Frame Ref × Option Ref)

inductive Event (Ref : Type u)
  | lock (serial : Nat) (object : Ref)
  | unlock (serial : Nat) (object : Ref)
deriving DecidableEq

def Event.serial {Ref : Type u} : Event Ref → Nat
  | lock serial _ | unlock serial _ => serial

/-- The state of a thread. `entered` has the object that each invocation passed to
`objectLock`, if it did. -/
structure State (Ref : Type u) where
  activations : List (Activation Ref)
  entered : List (Option Ref)
  trace : List (Event Ref)

/-- `catches` says which catch types of which methods match an exception. -/
inductive Action (Ref : Type u)
  | execute (ob : Option Ref) (mb : MethodBlock Ref) (lvars : Nat → Ref)
  | invoke (pc : Nat) (mb : MethodBlock Ref) (lvars : Nat → Ref)
  | store (index : Nat) (value : Ref)
  | methodReturn
  | throwException (pc : Nat) (catches : MethodBlock Ref → Nat → Bool)
  | nativeReturn

section
variable {Ref : Type u}

def MethodBlock.syncOb (mb : MethodBlock Ref) (local0 : Ref) : Option Ref :=
  if mb.isSynchronized then some (if mb.isStatic then mb.classObject else local0) else none

def MethodBlock.calledOb (mb : MethodBlock Ref) (ob : Option Ref) : Option Ref :=
  if mb.isSynchronized then some (ob.getD mb.classObject) else none

def findCatchBlockInMethod (mb : MethodBlock Ref) (catches : MethodBlock Ref → Nat → Bool)
    (pc : Nat) : Option Nat :=
  (mb.exceptionTable.find? fun entry =>
    entry.startPc ≤ pc && pc < entry.endPc && (entry.catchType == 0 || catches mb entry.catchType))
    |>.map ExceptionTableEntry.handlerPc

def locks (serial : Nat) (object : Option Ref) : List (Event Ref) :=
  object.toList.map (.lock serial)

def unlocks (serial : Nat) (object : Option Ref) : List (Event Ref) :=
  object.toList.map (.unlock serial)

/-- The handler if there is one, with the frames that are left and the objects unlocked. -/
def findCatchBlock (catches : MethodBlock Ref → Nat → Bool) :
    List (Frame Ref) → Option Nat × List (Frame Ref) × List (Event Ref)
  | [] => (none, [], [])
  | frame :: rest =>
    match findCatchBlockInMethod frame.mb catches frame.lastPc with
    | some handler => (some handler, frame :: rest, [])
    | none =>
      match rest with
      | [] => (none, [frame], [])
      | _ :: _ =>
        let (handler, frames, trace) := findCatchBlock catches rest
        (handler, frames, unlocks frame.serial (frame.mb.syncOb (frame.lvars 0)) ++ trace)

namespace State

variable (state : State Ref)

def enter (object : Option Ref) : State Ref :=
  { state with
    entered := state.entered ++ [object]
    trace := state.trace ++ locks state.entered.length object }

def leave (serial : Nat) (object : Option Ref) : State Ref :=
  { state with trace := state.trace ++ unlocks serial object }

def finish (ob : Option Ref) (frame : Frame Ref) (outer : List (Activation Ref)) : State Ref :=
  { state.leave frame.serial (frame.mb.calledOb ob) with activations := outer }

end State

def execute (state : State Ref) (ob : Option Ref) (mb : MethodBlock Ref) (lvars : Nat → Ref) :
    State Ref :=
  let lvars := match ob with
    | some ob => update lvars 0 ob
    | none => lvars
  let frame := ⟨mb, lvars, 0, state.entered.length⟩
  { state.enter (mb.calledOb ob) with
    activations := ⟨ob, [frame], lvars 0, none⟩ :: state.activations }

def interpret (state : State Ref) (ob : Option Ref) (frame : Frame Ref) (rest : List (Frame Ref))
    (this : Ref) (outer : List (Activation Ref)) : Action Ref → Option (State Ref)
  | .invoke pc mb lvars =>
    let frame := { frame with lastPc := pc }
    let newFrame := ⟨mb, lvars, 0, state.entered.length⟩
    let syncOb := mb.syncOb (lvars 0)
    some { state.enter syncOb with
      activations :=
        (if mb.isNative then
          ⟨ob, frame :: rest, this, some (newFrame, syncOb)⟩
        else
          ⟨ob, newFrame :: frame :: rest, lvars 0, none⟩) :: outer }
  | .store index value =>
    let frame := { frame with lvars := update frame.lvars index value }
    some { state with activations := ⟨ob, frame :: rest, this, none⟩ :: outer }
  | .methodReturn =>
    match rest with
    | [] => some (state.finish ob frame outer)
    | caller :: others =>
      some { state.leave frame.serial (frame.mb.syncOb this) with
        activations := ⟨ob, caller :: others, caller.lvars 0, none⟩ :: outer }
  | .throwException pc catches =>
    match findCatchBlock catches ({ frame with lastPc := pc } :: rest) with
    | (_, [], _) => none
    | (some _, found :: frames, trace) =>
      some { state with
        activations := ⟨ob, found :: frames, found.lvars 0, none⟩ :: outer
        trace := state.trace ++ trace }
    | (none, first :: _, trace) =>
      some ({ state with trace := state.trace ++ trace }.finish ob first outer)
  | .execute _ _ _ | .nativeReturn => none

def proceed (state : State Ref) (action : Action Ref) : Option (State Ref) :=
  match state.activations with
  | [] => none
  | ⟨_, [], _, _⟩ :: _ => none
  | ⟨ob, frame :: rest, this, some (native, syncOb)⟩ :: outer =>
    match action with
    | .nativeReturn =>
      some { state.leave native.serial syncOb with
        activations := ⟨ob, frame :: rest, this, none⟩ :: outer }
    | _ => none
  | ⟨ob, frame :: rest, this, none⟩ :: outer =>
    if frame.mb.isNative then
      match rest, action with
      | [], .nativeReturn => some (state.finish ob frame outer)
      | _, _ => none
    else
      interpret state ob frame rest this outer action

def step (state : State Ref) : Action Ref → Option (State Ref)
  | .execute ob mb lvars => some (execute state ob mb lvars)
  | action => proceed state action

end

def system (Ref : Type u) : TransitionSystem (State Ref) (Action Ref) where
  initial state := state = ⟨[], [], []⟩
  step := step

/-! ## Books of invocations

What was locked on entry and which invocations have not ended, without regard to how the
objects are found.
-/

section
variable {Ref : Type u}

def history (trace : List (Event Ref)) (serial : Nat) : List (Event Ref) :=
  trace.filter (·.serial = serial)

/-- Every invocation has locked its object, and unlocked the same object if it is not open
any more. -/
structure Books (entered : List (Option Ref)) (trace : List (Event Ref))
    (opened : List (Nat × Option Ref)) : Prop where
  distinct : (opened.map fst).Nodup
  known : ∀ serial object, (serial, object) ∈ opened → entered[serial]? = some object
  bounded : ∀ event ∈ trace, event.serial < entered.length
  balanced : ∀ serial object, entered[serial]? = some object →
    history trace serial = locks serial object ++
      (if serial ∈ opened.map fst then [] else unlocks serial object)

theorem history_append (trace more : List (Event Ref)) (serial : Nat) :
    history (trace ++ more) serial = history trace serial ++ history more serial :=
  filter_append _ _

theorem history_locks (serial other : Nat) (object : Option Ref) :
    history (locks other object) serial = if other = serial then locks other object else [] := by
  by_cases same : other = serial <;> cases object <;> simp [history, locks, Event.serial, same]

theorem history_unlocks (serial other : Nat) (object : Option Ref) :
    history (unlocks other object) serial =
      if other = serial then unlocks other object else [] := by
  by_cases same : other = serial <;> cases object <;> simp [history, unlocks, Event.serial, same]

variable {entered : List (Option Ref)} {trace : List (Event Ref)}
  {opened : List (Nat × Option Ref)}

section
variable (books : Books entered trace opened)
include books

theorem Books.lt_length (isOpen : serial ∈ opened.map fst) : serial < entered.length := by
  obtain ⟨⟨_, object⟩, mem, rfl⟩ := mem_map.mp isOpen
  exact (List.getElem?_eq_some_iff.mp (books.known _ object mem)).1

theorem Books.history_new : history trace entered.length = [] := by
  rw [history, filter_eq_nil_iff]
  intro event mem
  simpa using Nat.ne_of_lt (books.bounded event mem)

theorem Books.enter (object : Option Ref) :
    Books (entered ++ [object]) (trace ++ locks entered.length object)
      ((entered.length, object) :: opened) where
  distinct := by
    rw [map_cons, nodup_cons]
    exact ⟨fun isOpen => Nat.lt_irrefl _ (books.lt_length isOpen), books.distinct⟩
  known := by
    intro serial other mem
    rcases mem_cons.mp mem with isHead | mem
    · obtain ⟨rfl, rfl⟩ := mk.inj isHead
      exact getElem?_concat_length
    · have isKnown := books.known serial other mem
      rw [List.getElem?_append_left (List.getElem?_eq_some_iff.mp isKnown).1, isKnown]
  bounded := by
    intro event mem
    rw [List.length_append, List.length_singleton]
    rcases mem_append.mp mem with mem | mem
    · exact Nat.lt_succ_of_lt (books.bounded event mem)
    · cases object with
      | none => cases mem
      | some =>
        rw [mem_singleton.mp mem]
        exact Nat.lt_succ_self _
  balanced := by
    intro serial other isEntered
    rw [history_append, history_locks]
    obtain rfl | isNew := eq_or_ne entered.length serial
    · rw [getElem?_concat_length, Option.some.injEq] at isEntered
      subst isEntered
      simp [books.history_new]
    · have old : serial < entered.length := by
        have inside := (List.getElem?_eq_some_iff.mp isEntered).1
        rw [List.length_append, List.length_singleton] at inside
        omega
      rw [List.getElem?_append_left old] at isEntered
      rw [if_neg isNew, append_nil, books.balanced serial other isEntered]
      simp only [map_cons, mem_cons, Ne.symm isNew, false_or]

end

theorem Books.leave (books : Books entered trace ((serial, object) :: opened)) :
    Books entered (trace ++ unlocks serial object) opened where
  distinct := (nodup_cons.mp books.distinct).2
  known := fun other object mem => books.known other object (mem_cons_of_mem _ mem)
  bounded := by
    intro event mem
    rcases mem_append.mp mem with mem | mem
    · exact books.bounded event mem
    · cases object with
      | none => cases mem
      | some =>
        rw [mem_singleton.mp mem]
        exact books.lt_length mem_cons_self
  balanced := by
    intro other object' isEntered
    have closed := (nodup_cons.mp books.distinct).1
    rw [history_append, history_unlocks, books.balanced other object' isEntered]
    obtain rfl | same := eq_or_ne serial other
    · have isObject := books.known serial object mem_cons_self
      rw [isEntered, Option.some.injEq] at isObject
      subst isObject
      simp only [map_cons, mem_cons_self, if_true, append_nil]
      rw [if_neg closed]
    · simp only [same, if_false, append_nil, map_cons, mem_cons, Ne.symm same, false_or]

end

/-! ## Balance -/

section
variable {Ref : Type u}

def State.current (state : State Ref) : List Nat :=
  state.activations.flatMap fun act =>
    act.native.toList.map (·.1.serial) ++ act.frames.map Frame.serial

def KeepsThis (state : State Ref) : Action Ref → Prop
  | .store 0 value => ∀ act ∈ state.activations.head?, ∀ frame ∈ act.frames.head?,
      act.frames.length ≠ 1 → frame.mb.syncOb value = frame.mb.syncOb (frame.lvars 0)
  | _ => True

instance decidableKeepsThis [DecidableEq Ref] (state : State Ref) :
    (action : Action Ref) → Decidable (KeepsThis state action)
  | .store 0 value => inferInstanceAs (Decidable (∀ act ∈ state.activations.head?,
      ∀ frame ∈ act.frames.head?, act.frames.length ≠ 1 →
        frame.mb.syncOb value = frame.mb.syncOb (frame.lvars 0)))
  | .store (_ + 1) _ | .execute _ _ _ | .invoke _ _ _ | .methodReturn | .throwException _ _
  | .nativeReturn => inferInstanceAs (Decidable True)

def openedFrames (ob : Option Ref) : List (Frame Ref) → List (Nat × Option Ref)
  | [] => []
  | [frame] => [(frame.serial, frame.mb.calledOb ob)]
  | frame :: caller :: rest =>
    (frame.serial, frame.mb.syncOb (frame.lvars 0)) :: openedFrames ob (caller :: rest)

def Activation.opened (act : Activation Ref) : List (Nat × Option Ref) :=
  act.native.toList.map (fun native => (native.1.serial, native.2)) ++
    openedFrames act.ob act.frames

def Activation.HoldsThis (act : Activation Ref) : Prop :=
  ∀ frame caller rest, act.frames = frame :: caller :: rest →
    frame.mb.syncOb act.this = frame.mb.syncOb (frame.lvars 0)

structure Balanced (state : State Ref) : Prop where
  books : Books state.entered state.trace (state.activations.flatMap Activation.opened)
  holdsThis : ∀ act ∈ state.activations, act.HoldsThis

theorem openedFrames_fst (ob : Option Ref) (frames : List (Frame Ref)) :
    (openedFrames ob frames).map fst = frames.map Frame.serial := by
  induction frames with
  | nil => rfl
  | cons frame rest ih =>
    cases rest with
    | nil => rfl
    | cons => exact congrArg (frame.serial :: ·) ih

theorem current_eq (state : State Ref) :
    state.current = (state.activations.flatMap Activation.opened).map fst := by
  rw [State.current, map_flatMap]
  congr 1
  funext act
  rw [Activation.opened, map_append, openedFrames_fst, map_map]
  rfl

theorem openedFrames_lastPc (ob : Option Ref) (frame : Frame Ref) (rest : List (Frame Ref))
    (pc : Nat) :
    openedFrames ob ({ frame with lastPc := pc } :: rest) = openedFrames ob (frame :: rest) := by
  cases rest <;> rfl

theorem holdsThis_of_eq : Activation.HoldsThis ⟨ob, frame :: rest, frame.lvars 0, native⟩ := by
  intro frame' caller rest' isFrames
  obtain ⟨rfl, rfl⟩ := List.cons.inj isFrames
  rfl

variable {entered : List (Option Ref)} {trace : List (Event Ref)} {action : Action Ref}

theorem Books.congr (books : Books entered trace opened)
    (same : opened = opened') : Books entered trace opened' :=
  same ▸ books

theorem findCatchBlock_books (catches : MethodBlock Ref → Nat → Bool)
    (books : Books entered trace (openedFrames ob frames ++ others)) :
    Books entered (trace ++ (findCatchBlock catches frames).2.2)
      (openedFrames ob (findCatchBlock catches frames).2.1 ++ others) := by
  induction frames generalizing trace with
  | nil => simpa [findCatchBlock] using books
  | cons frame rest ih =>
    cases isFound : findCatchBlockInMethod frame.mb catches frame.lastPc with
    | some => simpa only [findCatchBlock, isFound, append_nil] using books
    | none =>
      cases rest with
      | nil => simpa only [findCatchBlock, isFound, append_nil] using books
      | cons =>
        simp only [findCatchBlock, isFound, ← append_assoc]
        exact ih books.leave

theorem findCatchBlock_none
    (isFound : findCatchBlock catches frames = (none, first :: left, unlocked)) : left = [] := by
  induction frames generalizing unlocked with
  | nil => cases isFound
  | cons frame rest ih =>
    cases inMethod : findCatchBlockInMethod frame.mb catches frame.lastPc with
    | some => simp [findCatchBlock, inMethod] at isFound
    | none =>
      cases rest with
      | nil =>
        simp only [findCatchBlock, inMethod, mk.injEq, List.cons.injEq] at isFound
        exact isFound.2.1.2.symm
      | cons =>
        simp only [findCatchBlock, inMethod, mk.injEq] at isFound
        exact ih (ext isFound.1 (ext isFound.2.1 rfl))

variable {state next : State Ref} {ob : Option Ref} {frame : Frame Ref}
  {rest : List (Frame Ref)} {this : Ref} {outer : List (Activation Ref)}

theorem Balanced.replace
    (books : Books entered trace (act.opened ++ outer.flatMap Activation.opened))
    (holdsThis : act.HoldsThis)
    (others : ∀ act ∈ outer, act.HoldsThis) :
    Balanced ⟨act :: outer, entered, trace⟩ where
  books := books
  holdsThis := by
    intro other mem
    rcases mem_cons.mp mem with rfl | mem
    · exact holdsThis
    · exact others other mem

theorem Balanced.execute (balanced : Balanced state) (ob : Option Ref) (mb : MethodBlock Ref)
    (lvars : Nat → Ref) : Balanced (execute state ob mb lvars) :=
  .replace (balanced.books.enter _) holdsThis_of_eq balanced.holdsThis

theorem Balanced.finish (books : Books state.entered trace
      ((frame.serial, frame.mb.calledOb ob) :: outer.flatMap Activation.opened))
    (others : ∀ act ∈ outer, act.HoldsThis) :
    Balanced ({ state with trace := trace }.finish ob frame outer) where
  books := books.leave
  holdsThis := others

section
variable
  (books : Books state.entered state.trace
    (openedFrames ob (frame :: rest) ++ outer.flatMap Activation.opened))
  (others : ∀ act ∈ outer, act.HoldsThis)
include books others

theorem Balanced.throwException
    (ran : interpret state ob frame rest this outer (.throwException pc catches) = some next) :
    Balanced next := by
  rw [← openedFrames_lastPc ob frame rest pc] at books
  have unwound := findCatchBlock_books catches books
  rw [interpret] at ran
  split at ran
  · cases ran
  · rename_i isFound
    cases ran
    rw [isFound] at unwound
    exact .replace unwound holdsThis_of_eq others
  · rename_i isFound
    cases ran
    rw [isFound, findCatchBlock_none isFound] at unwound
    exact .finish unwound others

variable (isThis : Activation.HoldsThis ⟨ob, frame :: rest, this, none⟩)
include isThis

theorem Balanced.methodReturn
    (ran : interpret state ob frame rest this outer .methodReturn = some next) :
    Balanced next := by
  cases rest with
  | nil =>
    cases ran
    exact .finish books others
  | cons caller rest =>
    cases ran
    rw [isThis frame caller rest rfl]
    exact .replace books.leave holdsThis_of_eq others

theorem Balanced.invoke
    (ran : interpret state ob frame rest this outer (.invoke pc mb lvars) = some next) :
    Balanced next := by
  cases ran
  rw [← openedFrames_lastPc ob frame rest pc] at books
  cases mb.isNative with
  | false => exact .replace (books.enter _) holdsThis_of_eq others
  | true =>
    refine .replace (books.enter _) ?_ others
    intro frame' caller rest' isFrames
    obtain ⟨rfl, rfl⟩ := List.cons.inj isFrames
    exact isThis frame caller rest' rfl

theorem Balanced.store (keeps : index = 0 → (frame :: rest).length ≠ 1 →
      frame.mb.syncOb value = frame.mb.syncOb (frame.lvars 0))
    (ran : interpret state ob frame rest this outer (.store index value) = some next) :
    Balanced next := by
  cases ran
  cases rest with
  | nil => exact .replace books (by rintro _ _ _ ⟨⟩) others
  | cons caller rest =>
    have same : frame.mb.syncOb (update frame.lvars index value 0) =
        frame.mb.syncOb (frame.lvars 0) := by
      obtain rfl | isZero := eq_or_ne index 0
      · rw [update_self]
        exact keeps rfl (by simp)
      · rw [update_of_ne (Ne.symm isZero)]
    refine .replace (books.congr ?_) ?_ others
    · simp only [Activation.opened, openedFrames, same]
      rfl
    · rintro _ _ _ ⟨⟩
      exact (isThis frame caller rest rfl).trans same.symm

theorem Balanced.interpret (keeps : ∀ index value, action = .store index value → index = 0 →
      (frame :: rest).length ≠ 1 → frame.mb.syncOb value = frame.mb.syncOb (frame.lvars 0))
    (ran : interpret state ob frame rest this outer action = some next) : Balanced next := by
  cases action with
  | invoke => exact .invoke books others isThis ran
  | store index value => exact .store books others isThis (keeps index value rfl) ran
  | methodReturn => exact .methodReturn books others isThis ran
  | throwException => exact .throwException books others ran
  | execute | nativeReturn => cases ran

end

theorem Balanced.proceed (balanced : Balanced state)
    (keeps : KeepsThis state action) (ran : proceed state action = some next) :
    Balanced next := by
  obtain ⟨activations, entered, trace⟩ := state
  cases activations with
  | nil => cases ran
  | cons act outer =>
    have books := balanced.books
    have isThis := balanced.holdsThis act mem_cons_self
    have others : ∀ other ∈ outer, other.HoldsThis :=
      fun other mem => balanced.holdsThis other (mem_cons_of_mem _ mem)
    obtain ⟨ob, frames, this, native⟩ := act
    cases frames with
    | nil => cases ran
    | cons frame rest =>
      cases native with
      | some =>
        cases action with
        | nativeReturn =>
          cases ran
          exact .replace books.leave isThis others
        | _ => cases ran
      | none =>
        change (if frame.mb.isNative then _ else _) = _ at ran
        split at ran
        · cases rest with
          | nil =>
            cases action with
            | nativeReturn =>
              cases ran
              exact .finish books others
            | _ => cases ran
          | cons => cases ran
        · refine .interpret books others isThis ?_ ran
          rintro index value rfl rfl
          exact keeps _ rfl _ rfl

theorem Balanced.step (balanced : Balanced state)
    (keeps : KeepsThis state action) (ran : step state action = some next) :
    Balanced next := by
  cases action with
  | execute ob mb lvars =>
    cases ran
    exact balanced.execute ob mb lvars
  | _ => exact balanced.proceed keeps ran

/-- An invocation locks the object it finds on entry, and when it has ended it has unlocked
the same object once, as long as synchronized methods keep their local 0. -/
theorem unlocks_entered {state : State Ref}
    (reachable : (system Ref).ReachableWhile KeepsThis state)
    (serial : Nat) (object : Option Ref) (isEntered : state.entered[serial]? = some object) :
    history state.trace serial = locks serial object ++
      (if serial ∈ state.current then [] else unlocks serial object) := by
  have balanced : Balanced state := by
    refine reachable.invariant Balanced ?_ fun _ _ _ balanced keeps ran => balanced.step keeps ran
    rintro _ rfl
    exact ⟨⟨nodup_nil, by simp, by simp, by simp⟩, by simp⟩
  rw [current_eq]
  exact balanced.books.balanced serial object isEntered

end

section

def plainMethod : MethodBlock Nat := ⟨false, true, false, 100, [⟨0, 10, 20, 0⟩]⟩

def synchronizedMethod : MethodBlock Nat := ⟨true, false, false, 101, []⟩

def enterAndStore (value : Nat) : List (Action Nat) :=
  [.execute none plainMethod (fun _ => 0), .invoke 3 synchronizedMethod (fun _ => 5),
    .store 0 value]

def callAndReturn : List (Action Nat) :=
  [.invoke 1 plainMethod (fun _ => 0), .methodReturn, .methodReturn]

def throwToCaller : List (Action Nat) := [.throwException 2 fun _ _ => true]

theorem unlocks_entered_sample :
    ∃ state, (system Nat).ReachableWhile KeepsThis state ∧ state.entered[1]? = some (some 5) ∧
      1 ∉ state.current ∧ history state.trace 1 = [.lock 1 5, .unlock 1 5] := by
  have executed : ((system Nat).runWhile KeepsThis ⟨[], [], []⟩
      (enterAndStore 5 ++ callAndReturn)).any (fun state =>
        state.entered[1]? = some (some 5) ∧ 1 ∉ state.current) = true := by decide +kernel
  obtain ⟨state, reachable, isEntered, isEnded⟩ :=
    TransitionSystem.ReachableWhile.of_any _ _ (.initial rfl) executed
  refine ⟨state, reachable, isEntered, isEnded, ?_⟩
  rw [unlocks_entered reachable 1 _ isEntered, if_neg isEnded]
  rfl

/-- A method that stores another object in local 0 unlocks that one, when it returns after a
call and when an exception unwinds its frame. -/
theorem unlocks_stored :
    Forall (fun ending => ((system Nat).run ⟨[], [], []⟩ (enterAndStore 6 ++ ending)).any
      (fun state => state.entered[1]? = some (some 5) ∧ 1 ∉ state.current ∧
        history state.trace 1 = [.lock 1 5, .unlock 1 6]) = true)
      [callAndReturn, throwToCaller] := by
  refine ⟨?_, ?_⟩
  · decide +kernel
  · decide +kernel

end

end JamVM.Interp.Synchronized
