import JamVM.Class.InitInvariant

/-! # Safety of class initialisation -/

namespace JamVM.Class.Init

open Function
open State hiding exception
open List
open TransitionSystem

variable {Thread : Type u} {Class : Type v}

/-! ## Reading the history -/

section
variable {program : Program Class} {history later earlier : List (Event Thread Class)}

theorem Proper.suffix (proper : Proper program (later ++ earlier)) : Proper program earlier := by
  induction later with
  | nil => exact proper
  | cons event later ih => exact ih proper.2

theorem Proper.started_once [DecidableEq Thread] [DecidableEq Class]
    (proper : Proper program history) (target : Class) :
    history.count (.started target) ≤ 1 := by
  induction history with
  | nil => simp
  | cons event earlier ih =>
    rw [count_cons]
    split
    · rename_i same
      have equal : event = .started target := by simpa using same
      subst equal
      have absent := count_eq_zero_of_not_mem proper.1
      omega
    · simpa using ih proper.2

theorem Proper.completed_once (proper : Proper program history)
    (first : .completed target serial success ∈ history)
    (second : .completed target serial' success' ∈ history) :
    serial = serial' ∧ success = success' := by
  induction history with
  | nil => cases first
  | cons event earlier ih =>
    obtain ⟨permitted, proper⟩ := proper
    rcases mem_cons.mp first with rfl | earlierFirst
    · rcases mem_cons.mp second with equal | second
      · cases equal
        exact ⟨rfl, rfl⟩
      · exact absurd second (permitted.2 serial' success')
    · rcases mem_cons.mp second with rfl | second
      · exact absurd earlierFirst (permitted.2 serial success)
      · exact ih proper earlierFirst second

theorem Proper.ordinary (proper : Proper program history)
    (completed : .completed target serial success ∈ history) : Ordinary program target := by
  induction history with
  | nil => cases completed
  | cons event earlier ih =>
    rcases mem_cons.mp completed with rfl | completed
    · exact proper.1.1
    · exact ih proper.2 completed

def Initialising (earlier : List (Event Thread Class)) (thread : Thread) (target : Class) :
    Prop :=
  .initing thread target ∈ earlier ∧ ∀ serial success, .completed target serial success ∉ earlier

theorem Event.Permitted.after_failure (proper : Proper program earlier)
    (permitted : Event.Permitted program earlier (.returned thread target serial res exception))
    (failure : .completed target failed false ∈ earlier) (ne : serial ≠ failed) :
    res = none ∧ exception = some (.noClassDefFoundError target) := by
  cases res with
  | some =>
    obtain ⟨-, special | ⟨succeeded, success⟩ | ⟨-, uncompleted⟩⟩ := permitted
    · exact absurd (proper.ordinary failure) special
    · cases (proper.completed_once failure success).2
    · exact absurd failure (uncompleted failed false)
  | none =>
    obtain ⟨recorded, completed, -, raised⟩ := permitted
    obtain ⟨rfl, -⟩ := proper.completed_once failure completed
    exact ⟨rfl, raised ne⟩

end

/-! ## Calls that need not wait -/

section
variable [DecidableEq Thread] [DecidableEq Class] {program : Program Class}
  {state next : State Thread Class} {thread other : Thread} {target : Class}
  {top : Activation Class} {below : List (Activation Class)}

def Location.initialises : Location Class → Bool
  | .superclass | .superCalled | .constants _ | .clinit | .finished | .wrap _
  | .setState _ => true
  | _ => false

attribute [local simp] Location.initialises

def Location.remaining : Location Class → Nat
  | .check => 4
  | .link | .waiting => 3
  | .enter => 2
  | .signalling => 1
  | _ => 0

attribute [local simp] Location.remaining

/-- The class of an activation needs no other thread any more: its initialisation
has failed, or the activation's own thread is initialising it in an outer call. -/
def Settled (state : State Thread Class) (thread : Thread) (act : Activation Class) : Prop :=
  state.status act.target = .bad ∨ state.status act.target = .initing ∧
      state.initingTid act.target = some thread ∧
      act.location.initialises = false

def Returned (state next : State Thread Class) (thread : Thread)
    (top : Activation Class) (below : List (Activation Class)) : Prop :=
  next.stack thread = below ∧ ∃ res, next.history = .returned thread top.target top.serial res
      (state.exception thread) :: state.history

def Closer (next : State Thread Class) (thread : Thread)
    (top : Activation Class) (below : List (Activation Class)) : Prop :=
  ∃ location, next.stack thread = ⟨top.target, top.serial, location⟩ :: below ∧
    location.initialises = false ∧ location.remaining < top.location.remaining

omit [DecidableEq Thread] [DecidableEq Class] in
theorem Settled.value (settled : Settled state thread top) :
    ClassState.linked.value ≤ (state.status top.target).value ∧
      ¬ ClassState.inited.value ≤ (state.status top.target).value := by
  rcases settled with bad | ⟨initing, -⟩
  · rw [bad]
    decide
  · rw [initing]
    decide

omit [DecidableEq Thread] [DecidableEq Class] in
theorem Settled.outside (settled : Settled state thread top)
    (located : Located state thread top) : top.location.initialises = false := by
  rcases settled with bad | ⟨-, -, outside⟩
  · unfold Located at located
    cases location : top.location with
    | setState success => cases success <;> grind [initialises_iff]
    | superclass | superCalled | constants | clinit | finished | wrap => grind [initialises_iff]
    | _ => rfl
  · exact outside

theorem Settled.advance (settled : Settled state thread top)
    (located : Located state thread top) (program : Program Class)
    (below : List (Activation Class)) (wrapper : Option (Throwable Class)) :
    ∃ next, advance program state thread top below wrapper = some next ∧
      next.status = state.status ∧ next.initingTid = state.initingTid ∧
      next.initiator = state.initiator ∧
      (Returned state next thread top below ∨ Closer next thread top below) := by
  obtain ⟨linked, notReady⟩ := settled.value
  have outside := settled.outside located
  have moved (location : Location Class) (nearer : location.initialises = false ∧
      location.remaining < top.location.remaining) :
      Closer (state.setStack thread (⟨top.target, top.serial, location⟩ :: below))
        thread top below := ⟨location, update_self .., nearer⟩
  unfold Init.advance
  cases location : top.location with
  | check =>
    simp only [if_neg notReady]
    exact ⟨_, rfl, rfl, rfl, rfl, .inr (moved .link (by simp [location]))⟩
  | link =>
    simp only [if_pos linked]
    exact ⟨_, rfl, rfl, rfl, rfl, .inr (moved .enter (by simp [location]))⟩
  | enter =>
    rcases settled with bad | ⟨initing, self, -⟩
    · simp only [bad, reduceCtorEq, if_false, if_true]
      exact ⟨_, rfl, rfl, rfl, rfl, .inr (moved .signalling (by simp [location]))⟩
    · simp only [initing, self, if_true]
      exact ⟨_, rfl, rfl, rfl, rfl, .inr (moved (.ret (some top.target)) (by simp [location]))⟩
  | waiting => exact ⟨_, rfl, rfl, rfl, rfl, .inr (moved .enter (by simp [location]))⟩
  | signalling =>
    exact ⟨_, rfl, rfl, rfl, rfl, .inr ⟨.ret none, update_self .., by simp [location]⟩⟩
  | ret res => exact ⟨_, rfl, rfl, rfl, rfl, .inl ⟨update_self .., res, rfl⟩⟩
  | _ =>
    rw [location] at outside
    cases outside

theorem advance_other (located : Located state other top)
    (ran : advance program state other top below wrapper = some next)
    (ne : other ≠ thread) (initing : state.status target = .initing)
    (self : state.initingTid target = some thread) :
    next.stack thread = state.stack thread ∧ next.status target = .initing ∧
      next.initingTid target = some thread ∧
      next.initiator target = state.initiator target := by
  unfold Init.advance at ran
  unfold Located at located
  cases location : top.location with
  | setState success =>
    simp only [location] at ran located
    cases ran
    have apart : target ≠ top.target := by
      rintro rfl
      cases success <;> grind [initialises_iff]
    simp [setStack, record, setStatus, ne.symm, apart, initing, self]
  | _ =>
    simp only [location] at ran
    (repeat' split at ran) <;> cases ran <;>
      simp [setStack, begin, record, setStatus, push,
        setException, update_apply, ne.symm, initing, self] <;>
      grind

structure Recursing (program : Program Class) (thread : Thread) (target : Class)
    (serial : Nat) (below : List (Activation Class)) (state : State Thread Class) : Prop where
  invariant : Invariant program state
  initing : state.status target = .initing
  self : state.initingTid target = some thread
  innermost : ∃ location, state.stack thread = ⟨target, serial, location⟩ :: below ∧
    location.initialises = false

def Action.proceeds (thread : Thread) : Action Thread Class → Bool
  | .proceed actor _ => actor = thread
  | _ => false

omit [DecidableEq Class] in
theorem Action.eq_proceed {action : Action Thread Class}
    (own : action.proceeds thread = true) : ∃ wrapper, action = .proceed thread wrapper := by
  cases action with
  | proceed actor wrapper => exact ⟨wrapper, by simpa [proceeds] using own⟩
  | _ => cases own

def distance (thread : Thread) (state : State Thread Class) : Nat :=
  match state.stack thread with
  | [] => 0
  | top :: _ => top.location.remaining

def ReturnsAtOnce (thread : Thread) (target : Class) (serial : Nat)
    (below : List (Activation Class)) (current next : State Thread Class) : Prop :=
  next.stack thread = below ∧ next.history =
    .returned thread target serial (some target) (current.exception thread) :: current.history

variable {serial : Nat}

section
variable (recursing : Recursing program thread target serial below state)
include recursing

theorem Recursing.advance (ran : step program state (.proceed thread wrapper) = some next) :
    Recursing program thread target serial below next ∧
        distance thread next < distance thread state ∨
      ReturnsAtOnce thread target serial below state next := by
  have invariant := recursing.invariant.step ran
  obtain ⟨location, innermost, outside⟩ := recursing.innermost
  have located := recursing.invariant.located thread _ (innermost ▸ mem_cons_self ..)
  have settled : Settled state thread ⟨target, serial, location⟩ :=
    .inr ⟨recursing.initing, recursing.self, outside⟩
  obtain ⟨reached, advanced, status, initingTid, -, outcome⟩ :=
    settled.advance located program below wrapper
  simp only [Init.step, innermost, advanced, Option.some.injEq] at ran
  subst ran
  rcases outcome with ⟨popped, res, recorded⟩ | ⟨closer, moved, still, nearer⟩
  · -- The class has not failed, so the history permits no other result.
    right
    obtain ⟨permitted, _⟩ : Proper program (.returned thread target serial res
        (state.exception thread) :: state.history) := recorded ▸ invariant.proper
    cases res with
    | some res =>
      have same : res = target := permitted.1
      exact ⟨popped, same ▸ recorded⟩
    | none =>
      obtain ⟨failed, completed, -⟩ := permitted
      have chronicle := recursing.invariant.recorded target
      simp only [Chronicle, recursing.initing] at chronicle
      exact absurd completed (chronicle.2.2 failed false)
  · left
    constructor
    · exact ⟨invariant, status ▸ recursing.initing, initingTid ▸ recursing.self,
        closer, moved, still⟩
    · simpa only [distance, moved, innermost] using nearer

theorem Recursing.stays (ran : step program state action = some next)
    (ne : action.proceeds thread = false) :
    Recursing program thread target serial below next ∧ next.stack thread = state.stack thread := by
  have invariant := recursing.invariant.step ran
  obtain ⟨location, innermost, outside⟩ := recursing.innermost
  -- The thread is inside `initClass` and runs no Java code.
  have busy (actor : Thread) (running : state.runsJava actor = true) : actor ≠ thread := by
    rintro rfl
    have located := recursing.invariant.located actor _ (innermost ▸ mem_cons_self ..)
    simp only [runsJava, innermost] at running
    cases location with
    | signalling =>
      simp only [Located, recursing.initing] at located
      cases located
    | constants | clinit | wrap => cases outside
    | _ => cases running
  have unchanged (stack : next.stack thread = state.stack thread)
      (status : next.status target = .initing)
      (initingTid : next.initingTid target = some thread) :
      Recursing program thread target serial below next ∧ next.stack thread = state.stack thread :=
    ⟨⟨invariant, status, initingTid, location, stack ▸ innermost, outside⟩, stack⟩
  cases action with
  | call actor =>
    obtain ⟨running, rfl⟩ := of_guard ran
    exact unchanged (update_of_ne (busy actor running).symm ..) recursing.initing recursing.self
  | raise | «catch» =>
    obtain ⟨-, rfl⟩ := of_guard ran
    exact unchanged rfl recursing.initing recursing.self
  | proceed actor =>
    have apart : actor ≠ thread := by simpa [Action.proceeds] using ne
    simp only [Init.step] at ran
    split at ran
    · cases ran
    · rename_i top rest running
      have located := recursing.invariant.located actor top (running ▸ mem_cons_self ..)
      obtain ⟨stack, status, initingTid, _⟩ :=
        advance_other located ran apart recursing.initing recursing.self
      exact unchanged stack status initingTid
  | link subject =>
    obtain ⟨permitted, rfl⟩ := of_guard ran
    have apart : target ≠ subject := by
      rintro rfl
      cases recursing.initing.symm.trans permitted.1
    exact unchanged rfl ((update_of_ne apart ..).trans recursing.initing) recursing.self

theorem Recursing.enabled (wrapper : Option (Throwable Class)) :
    (step program state (.proceed thread wrapper)).isSome = true := by
  obtain ⟨location, innermost, outside⟩ := recursing.innermost
  have located := recursing.invariant.located thread _ (innermost ▸ mem_cons_self ..)
  have settled : Settled state thread ⟨target, serial, location⟩ :=
    .inr ⟨recursing.initing, recursing.self, outside⟩
  obtain ⟨reached, advanced, -⟩ := settled.advance located program below wrapper
  simp [Init.step, innermost, advanced]

end

def ReturnsAlong (program : Program Class) (thread : Thread) (target : Class) (serial : Nat)
    (below : List (Activation Class)) (start : State Thread Class)
    (actions : List (Action Thread Class)) : Prop :=
  ∃ pre action post last next, actions = pre ++ action :: post ∧
    (system program).RunsWhile (fun _ _ => True) start pre last ∧
    (system program).step last action = some next ∧
    ReturnsAtOnce thread target serial below last next

/-- Along any run a recursive call returns, or it is still on its way and each
step of its thread has brought it closer. -/
theorem Recursing.run (recursing : Recursing program thread target serial below state)
    (path : (system program).RunsWhile (fun _ _ => True) state actions final) :
    ReturnsAlong program thread target serial below state actions ∨
      Recursing program thread target serial below final ∧
        actions.countP (Action.proceeds thread) + distance thread final ≤
          distance thread state := by
  induction path with
  | done => exact .inr ⟨recursing, by simp⟩
  | @step current next final action rest permitted ran path ih =>
    have later (along : ReturnsAlong program thread target serial below next rest) :
        ReturnsAlong program thread target serial below current (action :: rest) := by
      obtain ⟨pre, last, post, middle, left, split, reached, facts⟩ := along
      exact ⟨action :: pre, last, post, middle, left, by rw [split]; rfl,
        .step permitted ran reached, facts⟩
    cases own : action.proceeds thread with
    | false =>
      obtain ⟨remains, same⟩ := recursing.stays ran own
      rcases ih remains with along | ⟨still, bound⟩
      · exact .inl (later along)
      · refine .inr ⟨still, ?_⟩
        rw [countP_cons_of_neg (by simp [own])]
        simpa only [distance, same] using bound
    | true =>
      obtain ⟨wrapper, rfl⟩ := Action.eq_proceed own
      rcases recursing.advance ran with ⟨remains, nearer⟩ | returned
      · rcases ih remains with along | ⟨still, bound⟩
        · exact .inl (later along)
        · refine .inr ⟨still, ?_⟩
          rw [countP_cons_of_pos own]
          omega
      · exact .inl ⟨[], _, rest, current, next, rfl, .done current, ran, returned⟩

end

/-! ## The protocol -/

section
variable [DecidableEq Thread] [DecidableEq Class] {program : Program Class}
  {state : State Thread Class}

omit [DecidableEq Thread] [DecidableEq Class] in
theorem Invariant.bad_of_failed (invariant : Invariant program state)
    (failure : .completed target failed false ∈ state.history) :
    state.status target = .bad := by
  have chronicle := invariant.recorded target
  unfold Chronicle at chronicle
  cases known : state.status target with
  | loaded | linked | array | prim =>
    simp only [known] at chronicle
    exact absurd rfl (chronicle.2 _ failure)
  | initing =>
    simp only [known] at chronicle
    exact absurd failure (chronicle.2.2 failed false)
  | inited =>
    simp only [known] at chronicle
    obtain ⟨-, serial, success⟩ := chronicle
    cases (invariant.proper.completed_once failure success).2
  | bad => rfl

/-- Every run of any number of threads follows the initialisation protocol:
* `<clinit>` of a class is started at most once;
* a call returns the class only after its successful initialisation, unless its
  own thread is initialising the class;
* a call by the initialising thread is never blocked and returns the class within
  five of its thread's steps;
* after a failed initialisation the class is bad, every other call returns `NULL`
  with `NoClassDefFoundError` pending, and none of them is ever blocked. -/
theorem initClass_protocol (reachable : (system program).Reachable state) :
    (∀ target, state.history.count (.started target) ≤ 1) ∧
    (∀ later earlier thread target serial res exception, state.history =
        later ++ .returned thread target serial (some res) exception :: earlier →
      res = target ∧ (Ordinary program target → ¬ Initialising earlier thread target →
        ∃ call, .completed target call true ∈ earlier)) ∧
    (∀ thread target serial below, state.stack thread = ⟨target, serial, .check⟩ :: below →
      state.status target = .initing → state.initingTid target = some thread →
      ∀ actions final, (system program).RunsWhile (fun _ _ => True) state actions final →
        ReturnsAlong program thread target serial below state actions ∨
          actions.countP (Action.proceeds thread) < 5 ∧
            ∀ wrapper, ((system program).step final (.proceed thread wrapper)).isSome = true) ∧
    (∀ target failed, .completed target failed false ∈ state.history → state.status target = .bad ∧
      (∀ later earlier thread serial res exception,
        state.history = later ++ .returned thread target serial res exception :: earlier →
        .completed target failed false ∈ earlier → serial ≠ failed →
        res = none ∧ exception = some (.noClassDefFoundError target)) ∧
      ∀ thread top below wrapper, state.stack thread = top :: below → top.target = target →
        ∃ next, (system program).step state (.proceed thread wrapper) = some next ∧
          (Returned state next thread top below ∨ Closer next thread top below)) := by
  have invariant := invariant_reachable reachable
  refine ⟨invariant.proper.started_once, ?_, ?_, ?_⟩
  · intro later earlier thread target serial res exception split
    obtain ⟨permitted, _⟩ : Proper program
        (.returned thread target serial (some res) exception :: earlier) :=
      (split ▸ invariant.proper).suffix
    refine ⟨permitted.1, fun ordinary other => ?_⟩
    rcases permitted.2 with special | success | initialising
    · exact absurd ordinary special
    · exact success
    · exact absurd initialising other
  · intro thread target serial below innermost initing self actions final path
    have recursing : Recursing program thread target serial below state :=
      ⟨invariant, initing, self, .check, innermost, rfl⟩
    rcases recursing.run path with along | ⟨still, bound⟩
    · exact .inl along
    · refine .inr ⟨?_, still.enabled⟩
      simp only [distance, innermost, Location.remaining] at bound
      omega
  · intro target failed failure
    have bad := invariant.bad_of_failed failure
    refine ⟨bad, ?_, ?_⟩
    · intro later earlier thread serial res exception split pre ne
      obtain ⟨permitted, proper⟩ : Proper program
          (.returned thread target serial res exception :: earlier) :=
        (split ▸ invariant.proper).suffix
      exact permitted.after_failure proper pre ne
    · rintro thread top below wrapper running rfl
      have located := invariant.located thread top (running ▸ mem_cons_self ..)
      obtain ⟨next, advanced, -, -, -, outcome⟩ :=
        Settled.advance (.inl bad) located program below wrapper
      refine ⟨next, ?_, outcome⟩
      simp only [system, Init.step, running, advanced]

/-- Two threads initialise the only class, whose `<clinit>` initialises it again
and throws. -/
theorem initClass_protocol_throwing : ∃ state : State (Fin 2) Unit,
      (system ⟨fun _ => .ordinary, fun _ => none, fun _ => false, fun _ => 0,
        fun _ => true⟩).Reachable state ∧
      .returned 0 () 2 (some ()) none ∈ state.history ∧
      .returned 1 () 1 none (some (.noClassDefFoundError ())) ∈ state.history ∧
      state.status () = .bad := by
  let program : Program Unit :=
    ⟨fun _ => .ordinary, fun _ => none, fun _ => false, fun _ => 0, fun _ => true⟩
  let proceed (thread : Fin 2) (count : Nat) : List (Action (Fin 2) Unit) :=
    replicate count (.proceed thread none)
  have run : ((system program).run (start program)
      (.link () :: .call 0 () :: proceed 0 3 ++ .call 1 () :: proceed 1 3 ++ proceed 0 2 ++
        .call 0 () :: proceed 0 4 ++ .raise 0 (.other 1) :: proceed 0 5 ++ proceed 1 4)).any
        (fun state => .completed () 0 false ∈ state.history ∧
          .returned 0 () 2 (some ()) none ∈ state.history ∧
          .returned 1 () 1 none (some (.noClassDefFoundError ())) ∈ state.history) = true := by
    decide +kernel
  obtain ⟨state, reachable, failure, again, other⟩ :=
    TransitionSystem.Reachable.of_any _ _ (.initial rfl) run
  have protocol := initClass_protocol reachable
  exact ⟨state, reachable, again, other, (protocol.2.2.2 () 0 failure).1⟩

end

end JamVM.Class.Init
