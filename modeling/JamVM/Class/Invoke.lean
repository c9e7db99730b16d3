import JamVM.Class.LinkTable
import JamVM.Foundation.Transition

/-! # Method resolution

The calls of `resolveMethod` and `resolveInterfaceMethod` on one constant-pool entry,
as the invoke instructions and method-handle constants of a class make them one after
the other. The two resolvers mark the entry with different tags, and each of them
knows only its own.
-/

namespace JamVM.Class.Invoke

/-- The entry with its tag: as the class file has it, or with the method it was
resolved to. The resolved polymorphic method is not a method block. -/
inductive Entry
  | methodref
  | interfaceMethodref
  | resolvedMethod (method : MethodBlock)
  | resolved (method : MethodBlock)
  | resolvedPolyMethod
  deriving DecidableEq

inductive Throwable
  | unresolvedClass
  | incompatibleClassChange
  | abstractMethod (name : Utf8)
  | illegalAccess (message : String)
  | noSuchMethod (name : Utf8)
  deriving DecidableEq

structure Result where
  method : Option MethodBlock
  pending : Option Throwable
  deriving DecidableEq

structure Context where
  hierarchy : Hierarchy
  isAbstract : Nat → Bool
  accessing : Nat
  methodName : Utf8
  methodType : Utf8
  direct : Bool
  jsr335 : Bool
  jsr292 : Bool
  hidden : Nat → Utf8 → Bool
  invokeGeneric : Nat → Utf8 → Bool
  lookupPolymorphicMethod : Nat → Nat → Utf8 → Utf8 → Option MethodBlock

namespace Context

variable (context : Context)

/-! ## Lookup -/

def findMethod (target : Nat) : Option MethodBlock :=
  (context.hierarchy.link target).methods.find? fun method =>
    method.name = context.methodName && method.type = context.methodType

def lookupMethodWithin : Nat → Nat → Option MethodBlock
  | 0, _ => none
  | fuel + 1, target =>
    if context.jsr292 && context.hidden target context.methodName then
      none
    else
      match context.findMethod target with
      | some method => some method
      | none =>
        match (context.hierarchy.file target).super with
        | some super => lookupMethodWithin fuel super
        | none => none

def lookupMethod (target : Nat) : Option MethodBlock :=
  context.lookupMethodWithin (target + 1) target

def lookupInterfaceMethod (target : Nat) : Option MethodBlock :=
  match context.lookupMethod target with
  | some method => some method
  | none => (context.hierarchy.link target).imethodTable.findSome? fun entry =>
    context.findMethod entry.interface

/-! ## The resolvers -/

def lookupResolved (resolvedClass : Nat) : Except Throwable (Option MethodBlock) := do
  let found ←
    if (context.hierarchy.file resolvedClass).isInterface then
      if context.jsr335 then
        .ok (context.lookupInterfaceMethod resolvedClass)
      else
        .error .incompatibleClassChange
    else
      .ok (context.lookupMethod resolvedClass)
  match found with
  | some method => .ok (some method)
  | none =>
    if context.jsr292 then
      .ok (context.lookupPolymorphicMethod resolvedClass context.accessing
        context.methodName context.methodType)
    else
      .ok none

def checkResolved (resolvedClass : Nat) : Option MethodBlock → Except Throwable MethodBlock
  | none => .error (.noSuchMethod context.methodName)
  | some method =>
    if method.flags.isAbstract && !context.isAbstract resolvedClass then
      .error (.abstractMethod context.methodName)
    else if context.hierarchy.checkMethodAccess method context.accessing then
      .ok method
    else
      .error (.illegalAccess "method is not accessible")

def conclude (entry : Entry) (publish : MethodBlock → Entry) :
    Except Throwable MethodBlock → Entry × Result
  | .ok method => (publish method, ⟨some method, none⟩)
  | .error exception => (entry, ⟨none, some exception⟩)

/-- `resolvedClass` is the result of `resolveClass`, which signals an exception if it
has none. -/
def resolveMethod (resolvedClass : Option Nat) (entry : Entry) : Entry × Result :=
  match entry with
  | .resolvedMethod method => (entry, ⟨some method, none⟩)
  | .methodref | .interfaceMethodref =>
    match resolvedClass with
    | none => (entry, ⟨none, some .unresolvedClass⟩)
    | some resolvedClass => conclude entry .resolvedMethod do
        let found ← context.lookupResolved resolvedClass
        context.checkResolved resolvedClass found
  -- The switch has no other case.
  | .resolved _ | .resolvedPolyMethod => (entry, ⟨none, none⟩)

def resolveInterfaceMethod (resolvedClass : Option Nat) (entry : Entry) : Entry × Result :=
  match entry with
  | .resolved method => (entry, ⟨some method, none⟩)
  | .interfaceMethodref =>
    match resolvedClass with
    | none => (entry, ⟨none, some .unresolvedClass⟩)
    | some resolvedClass => conclude entry .resolved <|
        if (context.hierarchy.file resolvedClass).isInterface then
          match context.lookupInterfaceMethod resolvedClass with
          | some method => .ok method
          | none => .error (.noSuchMethod context.methodName)
        else
          .error .incompatibleClassChange
  -- The switch has no other case.
  | .methodref | .resolvedMethod _ | .resolvedPolyMethod => (entry, ⟨none, none⟩)

def isPolymorphicRef (resolvedClass : Option Nat) : Entry → Bool
  | .resolvedPolyMethod => context.jsr292
  | .methodref => context.jsr292 &&
      resolvedClass.any fun target => context.invokeGeneric target context.methodName
  | _ => false

end Context

/-- `invoker` says whether `findMethodHandleInvoker` finds one. -/
def resolvePolyMethod (invoker : Bool) : Entry → Option Entry
  | .resolvedPolyMethod => some .resolvedPolyMethod
  | .methodref => if invoker then some .resolvedPolyMethod else none
  | _ => none

/-! ## Instructions -/

/-- An invoke instruction, or what it is rewritten to. The quick instructions do not
resolve the entry again. -/
inductive Opcode
  | invokeVirtual
  | invokeSpecial
  | invokeStatic
  | invokeInterface
  | quick
  deriving DecidableEq

inductive ReferenceKind
  | invokeVirtual
  | invokeStatic
  | invokeSpecial
  | newInvokeSpecial
  | invokeInterface
  deriving DecidableEq

inductive Resolver
  | resolveMethod
  | resolveInterfaceMethod
  deriving DecidableEq

structure State (Site : Type u) where
  entry : Entry
  code : Site → Opcode
  history : List Result

structure Outside where
  resolvedClass : Option Nat
  invoker : Bool

inductive Action (Site : Type u)
  | execute (site : Site) (outside : Outside)
  | resolveMethodHandle (kind : ReferenceKind) (outside : Outside)

def Opcode.resolver : Opcode → Option Resolver
  | .invokeVirtual | .invokeSpecial | .invokeStatic => some .resolveMethod
  | .invokeInterface => some .resolveInterfaceMethod
  | .quick => none

def ReferenceKind.resolver : ReferenceKind → Resolver
  | .invokeInterface => .resolveInterfaceMethod
  | _ => .resolveMethod

def Resolver.call (context : Context) (resolvedClass : Option Nat) (entry : Entry) :
    Resolver → Entry × Result
  | .resolveMethod => context.resolveMethod resolvedClass entry
  | .resolveInterfaceMethod => context.resolveInterfaceMethod resolvedClass entry

def Opcode.rewrite (context : Context) (outside : Outside) (entry : Entry) (res : Result) :
    Opcode → Opcode × Entry
  | .invokeVirtual =>
    if res.method.isSome && res.pending.isNone then
      (.quick, entry)
    else if context.isPolymorphicRef outside.resolvedClass entry then
      match resolvePolyMethod outside.invoker entry with
      | some next => (.quick, next)
      | none => (.invokeVirtual, entry)
    else
      (.invokeVirtual, entry)
  | .invokeInterface =>
    match res.method with
    -- A null pointer is followed unless an exception is pending.
    | none => (.invokeInterface, entry)
    | some method =>
      if (context.hierarchy.file method.owner).isInterface || context.direct then
        (.quick, entry)
      else
        (.invokeVirtual, entry)
  | opcode => if res.method.isSome then (.quick, entry) else (opcode, entry)

def record {Site : Type u} (state : State Site) (entry : Entry) (res : Result) : State Site :=
  { state with entry := entry, history := state.history ++ [res] }

def step {Site : Type u} [DecidableEq Site] (context : Context) (state : State Site) :
    Action Site → Option (State Site)
  | .execute site outside =>
    (state.code site).resolver.map fun resolver =>
      let (entry, res) := resolver.call context outside.resolvedClass state.entry
      let (opcode, entry) := (state.code site).rewrite context outside entry res
      { record state entry res with code := Function.update state.code site opcode }
  | .resolveMethodHandle kind outside =>
    let (entry, res) := kind.resolver.call context outside.resolvedClass state.entry
    if kind = .invokeVirtual && res.method.isNone &&
        context.isPolymorphicRef outside.resolvedClass entry then
      some (record state ((resolvePolyMethod outside.invoker entry).getD entry) res)
    else
      some (record state entry res)

def system (Site : Type u) [DecidableEq Site] (context : Context) :
    TransitionSystem (State Site) (Action Site) where
  initial state := (state.entry = .methodref ∨ state.entry = .interfaceMethodref) ∧
    state.history = []
  step := step context

/-! ## Consistency -/

def Resolver.handles : Resolver → Entry → Bool
  | .resolveMethod, .methodref | .resolveMethod, .interfaceMethodref
  | .resolveMethod, .resolvedMethod _ => true
  | .resolveInterfaceMethod, .interfaceMethodref
  | .resolveInterfaceMethod, .resolved _ => true
  | _, _ => false

def Entry.Holds (entry : Entry) (method : MethodBlock) : Prop :=
  entry = .resolvedMethod method ∨ entry = .resolved method

def Result.Answers (res : Result) : Prop := res.method.isSome = true ∨ res.pending.isSome = true

variable {entry : Entry}

theorem Entry.Holds.unique
    (holds : entry.Holds first) (holds' : entry.Holds second) : first = second := by
  rcases holds with rfl | rfl <;> rcases holds' with same | same <;> cases same <;> rfl

theorem conclude_cases (entry : Entry) (publish : MethodBlock → Entry)
    (outcome : Except Throwable MethodBlock) :
    (∃ method, Context.conclude entry publish outcome = (publish method, ⟨some method, none⟩)) ∨
      ∃ exception, Context.conclude entry publish outcome = (entry, ⟨none, some exception⟩) := by
  cases outcome with
  | ok method => exact .inl ⟨method, rfl⟩
  | error exception => exact .inr ⟨exception, rfl⟩

theorem call_cases (context : Context) (resolvedClass : Option Nat) (entry : Entry)
    (resolver : Resolver) :
    (∃ method next, resolver.call context resolvedClass entry = (next, ⟨some method, none⟩) ∧
      next.Holds method ∧ ∀ other, entry.Holds other → next = entry) ∨
    (∃ exception, resolver.call context resolvedClass entry = (entry, ⟨none, some exception⟩)) ∨
    (resolver.call context resolvedClass entry = (entry, ⟨none, none⟩) ∧
      resolver.handles entry = false) := by
  have unresolved {publish : MethodBlock → Entry} {outcome : Except Throwable MethodBlock}
      (published : ∀ method, (publish method).Holds method)
      (fresh : ∀ other, ¬ entry.Holds other) :
      (∃ method next, Context.conclude entry publish outcome = (next, ⟨some method, none⟩) ∧
        next.Holds method ∧ ∀ other, entry.Holds other → next = entry) ∨
      (∃ exception, Context.conclude entry publish outcome = (entry, ⟨none, some exception⟩)) ∨
      (Context.conclude entry publish outcome = (entry, ⟨none, none⟩) ∧
        resolver.handles entry = false) := by
    rcases conclude_cases entry publish outcome with ⟨method, found⟩ | ⟨exception, failed⟩
    · exact .inl ⟨method, publish method, found, published method,
        fun other holds => absurd holds (fresh other)⟩
    · exact .inr (.inl ⟨exception, failed⟩)
  cases resolver with
  | resolveMethod =>
    cases entry with
    | resolvedMethod method => exact .inl ⟨method, _, rfl, .inl rfl, fun _ _ => rfl⟩
    | resolved | resolvedPolyMethod => exact .inr (.inr ⟨rfl, rfl⟩)
    | methodref | interfaceMethodref =>
      cases resolvedClass with
      | none => exact .inr (.inl ⟨_, rfl⟩)
      | some =>
        apply unresolved
        · exact fun method => .inl rfl
        · rintro other (holds | holds) <;> cases holds
  | resolveInterfaceMethod =>
    cases entry with
    | resolved method => exact .inl ⟨method, _, rfl, .inr rfl, fun _ _ => rfl⟩
    | methodref | resolvedMethod | resolvedPolyMethod => exact .inr (.inr ⟨rfl, rfl⟩)
    | interfaceMethodref =>
      cases resolvedClass with
      | none => exact .inr (.inl ⟨_, rfl⟩)
      | some =>
        apply unresolved
        · exact fun method => .inr rfl
        · rintro other (holds | holds) <;> cases holds

theorem resolvePolyMethod_holds
    (holds : entry.Holds method) : resolvePolyMethod invoker entry = none := by
  rcases holds with rfl | rfl <;> rfl

theorem rewrite_holds {opcode : Opcode} (holds : entry.Holds method) :
    (opcode.rewrite context outside entry res).2 = entry := by
  cases opcode with
  | invokeVirtual =>
    unfold Opcode.rewrite
    rw [resolvePolyMethod_holds holds]
    simp only
    split
    · rfl
    · split <;> rfl
  | invokeInterface =>
    unfold Opcode.rewrite
    cases res.method with
    | none => rfl
    | some =>
      simp only
      split <;> rfl
  | invokeSpecial | invokeStatic | quick =>
    unfold Opcode.rewrite
    simp only
    split <;> rfl

section
variable {Site : Type u} [DecidableEq Site] {context : Context}

def Action.resolver (state : State Site) : Action Site → Option Resolver
  | .execute site _ => (state.code site).resolver
  | .resolveMethodHandle kind _ => some kind.resolver

def Suited (state : State Site) (action : Action Site) : Prop :=
  ∀ resolver ∈ action.resolver state, resolver.handles state.entry = true

instance (state : State Site) (action : Action Site) : Decidable (Suited state action) :=
  inferInstanceAs (Decidable (∀ _ ∈ _, _ = true))

variable {state : State Site}

theorem step_cases (ran : step context state action = some next) :
    ∃ resolver resolvedClass, action.resolver state = some resolver ∧
      next.history = state.history ++ [(resolver.call context resolvedClass state.entry).2] ∧
      ∀ method, (resolver.call context resolvedClass state.entry).1.Holds method →
        next.entry = (resolver.call context resolvedClass state.entry).1 := by
  cases action with
  | execute site outside =>
    obtain ⟨resolver, calls, rfl⟩ := Option.map_eq_some_iff.mp ran
    exact ⟨resolver, outside.resolvedClass, calls, rfl, fun method holds => rewrite_holds holds⟩
  | resolveMethodHandle kind outside =>
    refine ⟨kind.resolver, outside.resolvedClass, rfl, ?_⟩
    unfold step at ran
    simp only at ran
    split at ran <;> cases ran
    · refine ⟨rfl, fun method holds => ?_⟩
      rw [resolvePolyMethod_holds holds]
      rfl
    · exact ⟨rfl, fun _ _ => rfl⟩

def Agrees (state : State Site) : Prop :=
  ∀ res ∈ state.history, ∀ method, res.method = some method → state.entry.Holds method

theorem Agrees.step (agrees : Agrees state)
    (ran : step context state action = some next) : Agrees next := by
  obtain ⟨resolver, resolvedClass, -, history, kept⟩ := step_cases ran
  intro res mem method found
  rw [history, List.mem_append, List.mem_singleton] at mem
  rcases call_cases context resolvedClass state.entry resolver with
    ⟨method', entry, call, holds, stays⟩ | ⟨exception, call⟩ | ⟨call, -⟩
  · rw [call] at mem kept
    rw [kept method' holds]
    rcases mem with earlier | rfl
    · have pre := agrees res earlier method found
      rw [stays method pre]
      exact pre
    · cases found
      exact holds
  all_goals
    rw [call] at mem kept
    rcases mem with earlier | rfl
    · have pre := agrees res earlier method found
      rw [kept method pre]
      exact pre
    · cases found

theorem agrees_reachable
    (reachable : (system Site context).ReachableWhile allowed state) : Agrees state := by
  apply reachable.invariant
  · intro start initial res mem
    rw [initial.2] at mem
    cases mem
  · intro current action next agrees _ ran
    exact agrees.step ran

/-- In runs in which every call has a case for the tag it finds, every call returns a
method or raises an exception. Methods returned by any two calls are always the same. -/
theorem resolution_consistent {state : State Site}
    (reachable : (system Site context).ReachableWhile Suited state) :
    (∀ res ∈ state.history, res.Answers) ∧
      ∀ first ∈ state.history, ∀ second ∈ state.history, ∀ method method',
        first.method = some method → second.method = some method' → method = method' := by
  constructor
  · refine reachable.invariant (fun state => ∀ res ∈ state.history, res.Answers) ?_ ?_
    · intro start initial res mem
      rw [initial.2] at mem
      cases mem
    · intro current action next answers suited ran res mem
      obtain ⟨resolver, resolvedClass, calls, history, -⟩ := step_cases ran
      rw [history, List.mem_append, List.mem_singleton] at mem
      rcases mem with earlier | rfl
      · exact answers res earlier
      · rcases call_cases context resolvedClass current.entry resolver with
          ⟨method, entry, call, -⟩ | ⟨exception, call⟩ | ⟨-, unknown⟩
        · rw [call]
          exact .inl rfl
        · rw [call]
          exact .inr rfl
        · have known := suited resolver calls
          rw [unknown] at known
          cases known
  · intro first mem second member' method method' found found'
    have agrees := agrees_reachable reachable
    exact (agrees first mem method found).unique (agrees second member' method' found')

end

def objectMethod (direct : Bool) : Context where
  hierarchy := .ofFiles [⟨"java/lang/Object".toList, 0, false, none, [],
      [⟨0, 0, ⟨true, false, false, false, false⟩, false⟩]⟩,
    ⟨"p/I".toList, 0, true, some 0, [], []⟩,
    ⟨"p/C".toList, 0, false, some 0, [], []⟩] (by decide)
  isAbstract _ := false
  accessing := 2
  methodName := 0
  methodType := 0
  direct := direct
  jsr335 := false
  jsr292 := false
  hidden _ _ := false
  invokeGeneric _ _ := false
  lookupPolymorphicMethod _ _ _ _ := none

def interfaceCalls : State Bool := ⟨.interfaceMethodref, fun _ => .invokeInterface, []⟩

theorem resolution_consistent_twice :
    ∃ state, (system Bool (objectMethod true)).ReachableWhile Suited state ∧
      state.history.map (fun res => res.method.isSome) = [true, true] ∧
      (∀ res ∈ state.history, res.Answers) ∧
      ∀ first ∈ state.history, ∀ second ∈ state.history, ∀ method method',
        first.method = some method → second.method = some method' → method = method' := by
  have executed : (((system Bool (objectMethod true)).runWhile Suited interfaceCalls
      [.execute true ⟨some 1, false⟩, .execute false ⟨some 1, false⟩]).any fun state =>
        state.history.map (fun res => res.method.isSome) = [true, true]) = true := by
    decide +kernel
  obtain ⟨state, reachable, answers⟩ :=
    TransitionSystem.ReachableWhile.of_any _ _ (.initial (by exact ⟨.inr rfl, rfl⟩)) executed
  exact ⟨state, reachable, answers, resolution_consistent reachable⟩

/-- In the other build the instruction is rewritten to an `invokevirtual`, which resolves
the entry again and finds the tag of the interface resolver. -/
theorem resolveMethod_unanswered : ∃ state, (system Bool (objectMethod false)).Reachable state ∧
      ∃ res ∈ state.history, ¬ res.Answers := by
  have executed : (((system Bool (objectMethod false)).run interfaceCalls
      [.execute true ⟨some 1, false⟩, .execute true ⟨some 1, false⟩]).any fun state =>
        ⟨none, none⟩ ∈ state.history) = true := by
    decide +kernel
  obtain ⟨state, reachable, mem⟩ :=
    TransitionSystem.Reachable.of_any _ _ (.initial (by exact ⟨.inr rfl, rfl⟩)) executed
  refine ⟨state, reachable, ⟨none, none⟩, mem, ?_⟩
  simp [Result.Answers]

end JamVM.Class.Invoke
