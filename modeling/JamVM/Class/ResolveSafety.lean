import JamVM.Class.Resolve

/-! # Resolution is free of confusion, and stable if the lookups agree

One invariant serves both results. Its pointers are any objects, or, once the
lookups are known to agree, the one object that they have found.
-/

namespace JamVM.Class.Resolve

variable {Thread : Type u} {Object : Type v}

def Genuine (agreed : Bool) (state : State Thread Object) (word : Word Object) : Prop :=
  ∃ object, word = .pointer object ∧ (agreed = true → state.found = some object)

def Located (entry : Entry) (agreed : Bool) (state : State Thread Object)
    (call : Call Object) : Prop :=
  match call.location with
  | .dispatch => entry.resolver ≠ resolveField
  | .test | .lookup => call.resolver = entry.resolver
  | .load => Genuine agreed state state.info
  | .read words | .retest words => call.resolver = entry.resolver ∧
      (state.tag = entry.resolver.unresolved → ∀ word ∈ words, word = .indices entry.indices)
  | .lock object => call.resolver = entry.resolver ∧ Genuine agreed state (.pointer object)
  | .publish object => call.resolver = entry.resolver ∧
      Genuine agreed state (.pointer object) ∧ state.tag ≠ entry.resolver.unresolved
  | .release object => call.resolver = entry.resolver ∧
      Genuine agreed state (.pointer object) ∧ state.tag ≠ entry.resolver.unresolved ∧
      Genuine agreed state state.info
  | .finish (some word) => Genuine agreed state word ∧ Genuine agreed state state.info
  | .fetch true => Genuine agreed state state.info
  | .finish none | .fetch false => True

attribute [local simp] Located

def Event.Sound (entry : Entry) (agreed : Bool) (state : State Thread Object) :
    Event Thread Object → Prop
  | .usedIndices words => ∀ word ∈ words, word = .indices entry.indices
  | .usedPointer word => Genuine agreed state word
  | .returned _ (some word) => Genuine agreed state word
  | .returned _ none | .failed .. => True

structure Invariant (entry : Entry) (agreed : Bool) (state : State Thread Object) : Prop where
  tags : state.tag = entry.resolver.unresolved ∨ state.tag = .locked ∨
    state.tag = entry.resolver.published
  unresolved : state.tag = entry.resolver.unresolved → state.info = .indices entry.indices
  published : state.tag = entry.resolver.published → Genuine agreed state state.info
  located : ∀ thread, ∀ call ∈ state.call thread, Located entry agreed state call
  sound : ∀ event ∈ state.history, event.Sound entry agreed state

structure Advances (entry : Entry) (agreed : Bool) (state next : State Thread Object) : Prop where
  tag : next.tag = entry.resolver.unresolved → state.tag = entry.resolver.unresolved
  info : Genuine agreed state state.info → Genuine agreed next next.info
  found : ∀ object, state.found = some object → next.found = some object

section
variable {entry : Entry} {agreed : Bool} {state next : State Thread Object}
  {call : Call Object} {word : Word Object}

theorem Genuine.mono (genuine : Genuine agreed state word)
    (advances : Advances entry agreed state next) : Genuine agreed next word := by
  obtain ⟨object, pointer, found⟩ := genuine
  exact ⟨object, pointer, fun agree => advances.found object (found agree)⟩

theorem Located.mono (located : Located entry agreed state call)
    (advances : Advances entry agreed state next) : Located entry agreed next call := by
  obtain ⟨single, resolver, location⟩ := call
  have mono (word : Word Object) (genuine : Genuine agreed state word) := genuine.mono advances
  obtain ⟨tag, info, found⟩ := advances
  cases location with
  | finish res => cases res <;> grind [Located]
  | fetch success => cases success <;> grind [Located]
  | _ => grind [Located]

theorem Event.Sound.mono {event : Event Thread Object} (sound : event.Sound entry agreed state)
    (advances : Advances entry agreed state next) : event.Sound entry agreed next := by
  cases event with
  | usedIndices => exact sound
  | usedPointer => exact Genuine.mono sound advances
  | failed => trivial
  | returned thread res =>
    cases res with
    | none => trivial
    | some => exact Genuine.mono sound advances

end

/-! ## Tags -/

theorem Entry.published_ne (entry : Entry) : entry.resolver.published ≠ entry.resolver.unresolved ∧
      entry.resolver.published ≠ .locked ∧ entry.resolver.unresolved ≠ .locked := by
  have known := entry.known
  revert known
  generalize entry.resolver = resolver
  revert resolver
  decide

theorem Entry.dispatch (entry : Entry) (ne : entry.resolver ≠ resolveField) :
    (resolveSingleConstant entry.resolver.unresolved = .call entry.resolver ∨
      resolveSingleConstant entry.resolver.unresolved = .inline entry.resolver) ∧
    resolveSingleConstant entry.resolver.published = .fetch := by
  have known := entry.known
  revert ne known
  generalize entry.resolver = resolver
  intro ne known
  revert ne
  revert resolver
  decide

/-! ## Elementary writes -/

section
variable {entry : Entry} {agreed : Bool} {state : State Thread Object} {thread : Thread}

section
variable (inv : Invariant entry agreed state)
include inv

namespace Invariant

theorem keep (advances : Advances entry agreed state next)
    (call : next.call = state.call) (history : next.history = state.history)
    (tags : next.tag = entry.resolver.unresolved ∨ next.tag = .locked ∨
      next.tag = entry.resolver.published)
    (unresolved : next.tag = entry.resolver.unresolved → next.info = .indices entry.indices)
    (published : next.tag = entry.resolver.published → Genuine agreed next next.info) :
    Invariant entry agreed next where
  tags := tags
  unresolved := unresolved
  published := published
  located thread called mem := by
    rw [call] at mem
    exact (inv.located thread called mem).mono advances
  sound event mem := by
    rw [history] at mem
    exact (inv.sound event mem).mono advances

theorem lock : Invariant entry agreed { state with tag := .locked } := by
  obtain ⟨_, published, unresolved⟩ := entry.published_ne
  have later : Tag.locked ≠ entry.resolver.unresolved := unresolved.symm
  have advances : Advances entry agreed state { state with tag := .locked } :=
    ⟨fun equal => absurd equal later, id, fun _ => id⟩
  exact inv.keep advances rfl rfl (.inr (.inl rfl)) (fun equal => absurd equal later)
    fun equal => absurd equal.symm published

theorem publish (genuine : Genuine agreed state (.pointer object))
    (begun : state.tag ≠ entry.resolver.unresolved) :
    Invariant entry agreed { state with info := .pointer object } := by
  have advances : Advances entry agreed state { state with info := .pointer object } :=
    ⟨id, fun _ => genuine, fun _ => id⟩
  exact inv.keep advances rfl rfl inv.tags (fun equal => absurd equal begun) fun _ => genuine

theorem release (genuine : Genuine agreed state state.info) :
    Invariant entry agreed { state with tag := entry.resolver.published } := by
  have later := entry.published_ne.1
  have advances : Advances entry agreed state
      { state with tag := entry.resolver.published } :=
    ⟨fun equal => absurd equal later, id, fun _ => id⟩
  exact inv.keep advances rfl rfl (.inr (.inr rfl)) (fun equal => absurd equal later)
    fun _ => genuine

theorem find (object : Object) :
    Invariant entry agreed { state with found := some (state.found.getD object) } := by
  have advances : Advances entry agreed state
      { state with found := some (state.found.getD object) } := by
    constructor
    · exact id
    · rintro ⟨pointed, pointer, found⟩
      exact ⟨pointed, pointer, fun agree => by simp [found agree]⟩
    · intro first found
      simp [found]
  exact inv.keep advances rfl rfl inv.tags inv.unresolved
    fun equal => advances.info (inv.published equal)

theorem record (event : Event Thread Object) (sound : event.Sound entry agreed state) :
    Invariant entry agreed (state.record event) where
  __ := inv
  sound other mem := by
    cases mem with
    | head => cases event <;> exact sound
    | tail _ mem => exact inv.sound other mem

end Invariant

end

variable [DecidableEq Thread]

theorem Invariant.setCall (inv : Invariant entry agreed state)
    (located : ∀ placed ∈ call, Located entry agreed state placed) :
    Invariant entry agreed (state.setCall thread call) where
  __ := inv
  located other placed mem := by
    obtain rfl | same := eq_or_ne other thread
    · simp only [State.setCall, Function.update_self] at mem
      exact located placed mem
    · simp only [State.setCall, Function.update_of_ne same] at mem
      exact inv.located other placed mem

end

/-! ## Steps and runs -/

def Agrees (state : State Thread Object) : Action Thread Object → Prop
  | .proceed thread (some object) => ∀ call ∈ state.call thread,
      call.location = .lookup → ∀ first ∈ state.found, first = object
  | _ => True

instance [DecidableEq Object] (state : State Thread Object) (action : Action Thread Object) :
    Decidable (Agrees state action) :=
  match action with
  | .proceed thread (some object) =>
    inferInstanceAs (Decidable (∀ call ∈ state.call thread,
      call.location = .lookup → ∀ first ∈ state.found, first = object))
  | .proceed _ none | .resolve _ | .resolveSingleConstant _ => isTrue trivial

section
variable [DecidableEq Thread] {entry : Entry} {agreed : Bool}
  {state next : State Thread Object} {thread : Thread}

theorem Invariant.advance (inv : Invariant entry agreed state)
    (calling : state.call thread = some call) (object : Option Object)
    (agrees : agreed = true → Agrees state (.proceed thread object)) :
    Invariant entry agreed (advance state thread call object) := by
  have located := inv.located thread call calling
  obtain ⟨ne, notLocked, unlocked⟩ := entry.published_ne
  unfold Located at located
  unfold Resolve.advance
  cases location : call.location
  all_goals simp only [location] at located
  case dispatch =>
    obtain ⟨unresolved, published⟩ := entry.dispatch located
    rcases inv.tags with tag | tag | tag
    · rcases unresolved with dispatch | dispatch <;> simp only [tag, dispatch]
      · exact inv.setCall (by simp)
      · exact inv.setCall (by simp)
    · simpa only [tag, resolveSingleConstant] using inv
    · simp only [tag, published]
      exact inv.setCall (by simpa using inv.published tag)
  case test =>
    simp only
    split
    · exact inv
    · split
      · rename_i published
        exact inv.setCall (by simpa using inv.published (located ▸ published))
      · split
        · exact inv.setCall (by simp [located])
        · exact inv.setCall (by simp)
  case load =>
    apply (inv.record (.usedPointer state.info) located).setCall
    rintro placed ⟨⟩
    exact ⟨located, located⟩
  case read words =>
    apply inv.setCall
    rintro placed ⟨⟩
    have prior : state.tag = entry.resolver.unresolved →
        ∀ word ∈ words ++ [state.info], word = .indices entry.indices := by
      intro tag word mem
      rcases List.mem_append.mp mem with mem | mem
      · exact located.2 tag word mem
      · rw [List.mem_singleton.mp mem, inv.unresolved tag]
    split <;> exact ⟨located.1, prior⟩
  case retest words =>
    simp only
    split
    · apply inv.setCall
      rintro placed ⟨⟩
      unfold Call.retry
      split
      · rename_i inlined
        show entry.resolver ≠ resolveField
        rw [← located.1, inlined]
        decide
      · exact located.1
    · rename_i tag
      have tag : state.tag = entry.resolver.unresolved := located.1 ▸ not_not.mp tag
      exact (inv.record (.usedIndices words) (located.2 tag)).setCall (by simpa using located.1)
  case lookup =>
    cases object with
    | none => exact inv.setCall (by simp)
    | some object =>
      apply (inv.find object).setCall
      rintro placed ⟨⟩
      refine ⟨located, object, rfl, fun agree => ?_⟩
      have same := agrees agree call calling location
      cases known : state.found with
      | none => rfl
      | some first => rw [Option.getD_some, same first known]
  case lock =>
    apply inv.lock.setCall
    rintro placed ⟨⟩
    exact ⟨located.1, located.2, fun equal => unlocked equal.symm⟩
  case publish =>
    apply (inv.publish located.2.1 located.2.2).setCall
    rintro placed ⟨⟩
    exact ⟨located.1, located.2.1, located.2.2, located.2.1⟩
  case release =>
    simp only [located.1]
    apply (inv.release located.2.2.2).setCall
    rintro placed ⟨⟩
    exact ⟨located.2.1, located.2.2.2⟩
  case finish res =>
    simp only
    split
    · apply inv.setCall
      rintro placed ⟨⟩
      cases res with
      | none => trivial
      | some => exact located.2
    · have sound : (Event.returned thread res).Sound entry agreed state := by
        cases res with
        | none => trivial
        | some => exact located.1
      exact (inv.record _ sound).setCall (by simp)
  case fetch success =>
    cases success with
    | true =>
      have used := inv.record (.usedPointer state.info) located
      exact (used.record (.returned thread (some state.info)) located).setCall (by simp)
    | false => exact (inv.record (.failed thread state.info) trivial).setCall (by simp)

theorem Invariant.step (inv : Invariant entry agreed state)
    (agrees : agreed = true → Agrees state action)
    (ran : step entry state action = some next) : Invariant entry agreed next := by
  cases action with
  | resolve =>
    obtain ⟨-, rfl⟩ := TransitionSystem.of_guard ran
    exact inv.setCall (by simp)
  | resolveSingleConstant =>
    obtain ⟨permitted, rfl⟩ := TransitionSystem.of_guard ran
    exact inv.setCall (by simpa using permitted.2)
  | proceed thread object =>
    simp only [Resolve.step] at ran
    obtain ⟨call, calling, rfl⟩ := Option.map_eq_some_iff.mp ran
    exact inv.advance calling object agrees

omit [DecidableEq Thread] in
theorem invariant_start (entry : Entry) (agreed : Bool) :
    Invariant entry agreed (start entry : State Thread Object) where
  tags := .inl rfl
  unresolved _ := rfl
  published equal := absurd equal.symm entry.published_ne.1
  located _ _ mem := by cases mem
  sound _ mem := by cases mem

theorem invariant_reachable (agreed : Bool)
    (agrees : agreed = true → ∀ current action, allowed current action → Agrees current action)
    (reachable : (system entry).ReachableWhile allowed state) :
    Invariant entry agreed state := by
  apply reachable.invariant (Invariant entry agreed)
  · intro state initial
    cases initial
    exact invariant_start entry agreed
  · intro current action next inv permitted ran
    exact inv.step (fun agree => agrees agree current action permitted) ran

end

section
variable [DecidableEq Thread] {entry : Entry} {state : State Thread Object}

structure Unconfused (entry : Entry) (history : List (Event Thread Object)) : Prop where
  indices : ∀ words, .usedIndices words ∈ history → ∀ word ∈ words, word = .indices entry.indices
  pointers : ∀ word, .usedPointer word ∈ history → ∃ object, word = .pointer object

omit [DecidableEq Thread] in
theorem Invariant.unconfused (inv : Invariant entry agreed state) :
    Unconfused entry state.history where
  indices _ mem := inv.sound _ mem
  pointers word mem := by
    obtain ⟨object, pointer, -⟩ := inv.sound _ mem
    exact ⟨object, pointer⟩

/-- If the lookups of the entry agree, all successful calls return one object. -/
theorem resolve_stable (reachable : (system entry).ReachableWhile Agrees state) :
    Unconfused entry state.history ∧
    ∀ first second word word', .returned first (some word) ∈ state.history →
      .returned second (some word') ∈ state.history →
      word = word' ∧ ∃ object, word = .pointer object := by
  have inv : Invariant entry true state :=
    invariant_reachable true (fun _ _ _ agrees => agrees) reachable
  refine ⟨inv.unconfused, ?_⟩
  intro first second word word' returned returned'
  obtain ⟨object, pointer, found⟩ := inv.sound _ returned
  obtain ⟨object', pointer', found'⟩ := inv.sound _ returned'
  have same : object = object' := Option.some.inj ((found rfl).symm.trans (found' rfl))
  exact ⟨by rw [pointer, pointer', same], object, pointer⟩

end

def race (first second : Nat) : List (Action (Fin 2) Nat) :=
  .resolve 0 :: .resolve 1 ::
    List.replicate 3 (.proceed 0 none) ++ List.replicate 3 (.proceed 1 none) ++
    List.replicate 5 (.proceed 0 (some first)) ++ List.replicate 5 (.proceed 1 (some second))

/-- Two threads resolve a class at the same time and find the same one. -/
theorem resolve_stable_race : ∃ state : State (Fin 2) Nat,
      (system ⟨resolveClass, by decide, 3⟩).ReachableWhile Agrees state ∧
      .returned 0 (some (.pointer 7)) ∈ state.history ∧
      .returned 1 (some (.pointer 7)) ∈ state.history ∧
      Unconfused ⟨resolveClass, by decide, 3⟩ state.history := by
  let entry : Entry := ⟨resolveClass, by decide, 3⟩
  have run : ((system entry).runWhile Agrees (start entry) (race 7 7)).any
      (fun state => .returned 0 (some (.pointer 7)) ∈ state.history ∧
        .returned 1 (some (.pointer 7)) ∈ state.history) = true := by
    decide +kernel
  obtain ⟨state, reachable, returned⟩ :=
    TransitionSystem.ReachableWhile.of_any _ _ (.initial rfl) run
  exact ⟨state, reachable, returned.1, returned.2, (resolve_stable reachable).1⟩

/-- Two threads resolve a method type at the same time. Each looks up an object of
its own, publishes it and returns it. -/
theorem resolveMethodType_unstable :
    ∃ state : State (Fin 2) Nat, (system ⟨resolveMethodType, by decide, 3⟩).Reachable state ∧
      .returned 0 (some (.pointer 7)) ∈ state.history ∧
      .returned 1 (some (.pointer 8)) ∈ state.history := by
  refine TransitionSystem.Reachable.of_any (start _) (race 7 8) (.initial rfl) ?_
  decide +kernel

end JamVM.Class.Resolve
