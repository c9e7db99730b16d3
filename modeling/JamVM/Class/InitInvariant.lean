import JamVM.Class.Init
import Mathlib.Tactic.Common

/-! # The invariant of class initialisation

Each activation carries what its location says about its class, each class what
its state says about the history, and every event of the history is permitted by
the events before it.
-/

namespace JamVM.Class.Init

open Location Function
open State (record setStack setStatus)
open List
open TransitionSystem (of_guard)

def Location.nests {Class : Type u} : Location Class → Bool
  | .superCalled => true
  | location => location.runsJava

section
variable {Thread : Type u} {Class : Type v}

@[mk_iff]
structure Initialises (state : State Thread Class) (thread : Thread)
    (act : Activation Class) : Prop where
  status : state.status act.target = .initing
  initingTid : state.initingTid act.target = some thread
  initiator : state.initiator act.target = some act.serial

def Located (state : State Thread Class) (thread : Thread) (act : Activation Class) : Prop :=
  match act.location with
  | .check | .link | .enter | .waiting => True
  | .signalling => state.status act.target = .bad
  | .superclass | .superCalled | .constants _ =>
    Initialises state thread act ∧ .started act.target ∉ state.history
  | .clinit | .finished | .wrap _ | .setState true => Initialises state thread act
  | .setState false => Initialises state thread act ∧ state.exception thread ≠ none
  | .ret (some res) => res = act.target ∧
      (ClassState.inited.value ≤ (state.status act.target).value ∨
        state.status act.target = .initing ∧ state.initingTid act.target = some thread)
  | .ret none => state.status act.target = .bad ∧
      (state.exception thread = some (.noClassDefFoundError act.target) ∨
        state.initiator act.target = some act.serial ∧ state.exception thread ≠ none)

def Event.concerns (event : Event Thread Class) (target : Class) : Prop :=
  match event with
  | .initing _ subject | .started subject | .completed subject _ _ => subject = target
  | .returned _ _ _ _ _ => False

variable (program : Program Class)

def Ordinary (target : Class) : Prop := program.kind target = .ordinary

def Chronicle (state : State Thread Class) (target : Class) : Prop :=
  match state.status target with
  | .loaded | .linked => Ordinary program target ∧ ∀ event ∈ state.history, ¬ event.concerns target
  | .initing => Ordinary program target ∧ (∃ thread, state.initingTid target = some thread ∧
        .initing thread target ∈ state.history) ∧
      ∀ serial success, .completed target serial success ∉ state.history
  | .inited => Ordinary program target ∧ ∃ serial, .completed target serial true ∈ state.history
  | .bad => Ordinary program target ∧ ∃ serial, state.initiator target = some serial ∧
        .completed target serial false ∈ state.history
  | .array | .prim _ => ¬ Ordinary program target ∧ ∀ event ∈ state.history, ¬ event.concerns target

def Event.Permitted (earlier : List (Event Thread Class)) : Event Thread Class → Prop
  | .initing _ target => ∀ thread, .initing thread target ∉ earlier
  | .started target => .started target ∉ earlier
  | .completed target _ _ => Ordinary program target ∧
      ∀ serial success, .completed target serial success ∉ earlier
  | .returned thread target _ (some res) _ => res = target ∧ (¬ Ordinary program target ∨
        (∃ serial, .completed target serial true ∈ earlier) ∨
        (.initing thread target ∈ earlier ∧
          ∀ serial success, .completed target serial success ∉ earlier))
  | .returned _ target serial none exception =>
    ∃ failed, .completed target failed false ∈ earlier ∧ (serial = failed → exception ≠ none) ∧
      (serial ≠ failed → exception = some (.noClassDefFoundError target))

def Proper : List (Event Thread Class) → Prop
  | [] => True
  | event :: earlier => event.Permitted program earlier ∧ Proper earlier

/-- The activations of a thread: inner calls began later, and only locations that
call something have an activation above them. -/
structure Layered (calls : Nat) (stack : List (Activation Class)) : Prop where
  sorted : stack.Pairwise fun upper lower => lower.serial < upper.serial
  counted : ∀ act ∈ stack, act.serial < calls
  nested : ∀ act ∈ stack.tail, act.location.nests = true

structure Invariant (state : State Thread Class) : Prop where
  layered : ∀ thread, Layered state.calls (state.stack thread)
  located : ∀ thread, ∀ act ∈ state.stack thread, Located state thread act
  recorded : ∀ target, Chronicle program state target
  proper : Proper program state.history

end

/-! ## Stacks -/

section
variable {Class : Type u} {top : Activation Class} {below : List (Activation Class)}

theorem Layered.replace (layered : Layered calls (top :: below)) (location : Location Class) :
    Layered calls (⟨top.target, top.serial, location⟩ :: below) where
  sorted := pairwise_cons.mpr (pairwise_cons.mp layered.sorted)
  counted act mem := by
    cases mem with
    | head => exact layered.counted top (mem_cons_self ..)
    | tail _ mem => exact layered.counted act (mem_cons_of_mem _ mem)
  nested := layered.nested

theorem Layered.pop (layered : Layered calls (top :: below)) : Layered calls below where
  sorted := (pairwise_cons.mp layered.sorted).2
  counted act mem := layered.counted act (mem_cons_of_mem _ mem)
  nested act mem := layered.nested act (List.mem_of_mem_tail mem)

theorem Layered.mono (layered : Layered calls below) (more : calls ≤ limit) :
    Layered limit below where
  __ := layered
  counted act mem := Nat.lt_of_lt_of_le (layered.counted act mem) more

theorem Layered.push (layered : Layered calls below)
    (nests : ∀ act ∈ below.head?, act.location.nests = true)
    (target : Class) (location : Location Class) :
    Layered (calls + 1) (⟨target, calls, location⟩ :: below) where
  sorted := pairwise_cons.mpr ⟨layered.counted, layered.sorted⟩
  counted act mem := by
    cases mem with
    | head => exact Nat.lt_succ_self calls
    | tail _ mem => exact Nat.lt_succ_of_lt (layered.counted act mem)
  nested act mem := by
    cases below with
    | nil => cases mem
    | cons =>
      rcases mem_cons.mp mem with rfl | mem
      · exact nests _ rfl
      · exact layered.nested act mem

theorem Layered.serial_ne (layered : Layered calls (top :: below))
    (mem : act ∈ below) : act.serial ≠ top.serial :=
  Nat.ne_of_lt ((pairwise_cons.mp layered.sorted).1 act mem)

end

/-! ## What a step leaves alone -/

section
variable {Thread : Type u} {Class : Type v} {state next : State Thread Class}
  {thread other : Thread}

theorem Located.congr (located : Located state other act)
    (status : next.status act.target = state.status act.target)
    (initingTid : next.initingTid act.target = state.initingTid act.target)
    (initiator : next.initiator act.target = state.initiator act.target)
    (exception : next.exception other = state.exception other ∨ act.location.nests = true)
    (history : .started act.target ∈ next.history → .started act.target ∈ state.history) :
    Located next other act := by
  obtain ⟨target, serial, location⟩ := act
  cases location with
  | setState success => cases success <;> grind [Located, initialises_iff, Location.nests, runsJava]
  | ret res => cases res <;> grind [Located, Location.nests, runsJava]
  | _ => grind [Located, initialises_iff]

theorem Located.fresh (located : Located state other act)
    (fresh : state.status act.target = .loaded ∨ state.status act.target = .linked) :
    Located next other act := by
  obtain ⟨target, serial, location⟩ := act
  cases location with
  | setState success => cases success <;> grind [Located, initialises_iff]
  | ret res => cases res <;> grind [Located, ClassState.value]
  | _ => grind [Located, initialises_iff]

theorem Located.besides (located : Located state other act)
    (initialises : Initialises state thread top)
    (deeper : other = thread → act.location.nests = true ∧ act.serial ≠ top.serial)
    (same : act.target = top.target) :
    Located next other act := by
  obtain ⟨target, serial, location⟩ := act
  obtain ⟨status, initingTid, initiator⟩ := initialises
  cases location with
  | setState success => cases success <;> grind [Located, initialises_iff]
  | ret res => cases res <;> grind [Located, ClassState.value, Location.nests, runsJava]
  | _ => grind [Located, initialises_iff]

theorem mem_besides {event : Event Thread Class} (apart : ¬ event.concerns target)
    (other : Event Thread Class) (concerns : other.concerns target) :
    other ∈ event :: history ↔ other ∈ history := by
  refine ⟨mem_of_ne_of_mem ?_, mem_cons_of_mem _⟩
  rintro rfl
  exact apart concerns

theorem Chronicle.congr (chronicle : Chronicle program state target)
    (status : next.status target = state.status target)
    (initingTid : next.initingTid target = state.initingTid target)
    (initiator : next.initiator target = state.initiator target)
    (history : ∀ event, event.concerns target → (event ∈ next.history ↔ event ∈ state.history)) :
    Chronicle program next target := by
  unfold Chronicle at chronicle ⊢
  rw [status]
  cases known : state.status target with
  | loaded | linked | array | prim => grind
  | initing | inited | bad => grind [Event.concerns]

end

/-! ## Steps of the innermost activation -/

section
variable {Thread : Type u} {Class : Type v} [DecidableEq Thread]
  {program : Program Class} {state : State Thread Class} {thread : Thread}
  {top : Activation Class} {below : List (Activation Class)}

section
variable (inv : Invariant program state)
include inv

section
variable (running : state.stack thread = top :: below)
include running

theorem Invariant.replace
    (stack : post.stack = update state.stack thread (⟨top.target, top.serial, location⟩ :: below))
    (calls : post.calls = state.calls)
    (here : Located post thread ⟨top.target, top.serial, location⟩)
    (others : ∀ other act, Located state other act → (other = thread → act.location.nests = true ∧
        act.serial ≠ top.serial) → Located post other act)
    (recorded : ∀ target, Chronicle program post target)
    (proper : Proper program post.history) : Invariant program post where
  layered other := by
    have layered := inv.layered other
    rw [stack, calls]
    obtain rfl | same := eq_or_ne other thread
    · rw [running] at layered
      rw [update_self]
      exact layered.replace location
    · rw [update_of_ne same]
      exact layered
  located other act mem := by
    rw [stack] at mem
    obtain rfl | same := eq_or_ne other thread
    · have layered := inv.layered other
      have located := inv.located other
      rw [running] at layered located
      rw [update_self] at mem
      cases mem with
      | head => exact here
      | tail _ mem =>
        exact others other act (located act (mem_cons_of_mem _ mem))
          fun _ => ⟨layered.nested act mem, layered.serial_ne mem⟩
    · rw [update_of_ne same] at mem
      exact others other act (inv.located other act mem) fun equal => absurd equal same
  recorded := recorded
  proper := proper

theorem Invariant.gotoRaising (location : Location Class) (exception : Option (Throwable Class))
    (here : Located (state.setException thread exception) thread
      ⟨top.target, top.serial, location⟩) :
    Invariant program ((state.setException thread exception).setStack thread
      (⟨top.target, top.serial, location⟩ :: below)) := by
  apply inv.replace running (by rfl) (by rfl)
  · exact here.congr rfl rfl rfl (.inl rfl) id
  · intro other act located deeper
    refine located.congr rfl rfl rfl ?_ id
    by_cases same : other = thread
    · exact .inr (deeper same).1
    · exact .inl (update_of_ne same ..)
  · intro target
    exact (inv.recorded target).congr rfl rfl rfl fun _ _ => Iff.rfl
  · exact inv.proper

theorem Invariant.goto (location : Location Class)
    (here : Located state thread ⟨top.target, top.serial, location⟩) :
    Invariant program (state.setStack thread (⟨top.target, top.serial, location⟩ :: below)) := by
  have same : state.setException thread (state.exception thread) = state := by
    simp [State.setException]
  have moved := inv.gotoRaising running location (state.exception thread)
  rw [same] at moved
  exact moved here

theorem Invariant.return (location : top.location = .ret res) :
    Invariant program ((state.setStack thread below).record
      (.returned thread top.target top.serial res (state.exception thread))) where
  layered other := by
    have layered := inv.layered other
    obtain rfl | same := eq_or_ne other thread
    · rw [running] at layered
      simpa only [record, setStack, update_self] using layered.pop
    · simpa only [record, setStack, update_of_ne same] using layered
  located other act mem := by
    have mem : act ∈ state.stack other := by
      obtain rfl | same := eq_or_ne other thread
      · simp only [record, setStack, update_self] at mem
        rw [running]
        exact mem_cons_of_mem _ mem
      · simpa only [record, setStack, update_of_ne same] using mem
    refine (inv.located other act mem).congr rfl rfl rfl (.inl rfl) ?_
    intro started
    cases started with
    | tail _ started => exact started
  recorded target := by
    refine (inv.recorded target).congr rfl rfl rfl ?_
    exact mem_besides nofun
  proper := by
    refine ⟨?_, inv.proper⟩
    have located := inv.located thread top (running ▸ mem_cons_self ..)
    have chronicle := inv.recorded top.target
    simp only [Located, location] at located
    cases res with
    | some =>
      obtain ⟨same, ready | ⟨status, initingTid⟩⟩ := located
      · refine ⟨same, ?_⟩
        cases known : state.status top.target with
        | inited =>
          simp only [Chronicle, known] at chronicle
          exact .inr (.inl chronicle.2)
        | array | prim =>
          simp only [Chronicle, known] at chronicle
          exact .inl chronicle.1
        | _ =>
          rw [known] at ready
          exact absurd ready (by decide)
      · simp only [Chronicle, status] at chronicle
        obtain ⟨-, ⟨self, recorded, begun⟩, uncompleted⟩ := chronicle
        rw [initingTid] at recorded
        cases recorded
        exact ⟨same, .inr (.inr ⟨begun, uncompleted⟩)⟩
    | none =>
      obtain ⟨status, cause⟩ := located
      simp only [Chronicle, status] at chronicle
      obtain ⟨-, failed, initiator, completed⟩ := chronicle
      refine ⟨failed, completed, ?_, ?_⟩ <;> grind

variable [DecidableEq Class]

theorem Invariant.begin
    (fresh : state.status top.target = .loaded ∨ state.status top.target = .linked) :
    Invariant program ((state.begin thread top.target top.serial).setStack thread
      (⟨top.target, top.serial, .superclass⟩ :: below)) := by
  obtain ⟨ordinary, untouched⟩ : Ordinary program top.target ∧
      ∀ event ∈ state.history, ¬ event.concerns top.target := by
    have chronicle := inv.recorded top.target
    unfold Chronicle at chronicle
    rcases fresh with known | known <;> simpa only [known] using chronicle
  apply inv.replace running (by rfl) (by rfl)
  · refine ⟨⟨update_self .., update_self .., update_self ..⟩, ?_⟩
    intro started
    cases started with
    | tail _ started => exact untouched _ started rfl
  · intro other act located _
    by_cases same : act.target = top.target
    · exact located.fresh (same ▸ fresh)
    · refine located.congr (update_of_ne same ..) (update_of_ne same ..)
        (update_of_ne same ..) (.inl rfl) ?_
      intro started
      cases started with
      | tail _ started => exact started
  · intro target
    obtain rfl | same := eq_or_ne target top.target
    · simp only [Chronicle, State.begin, setStack, record, setStatus, update_self]
      refine ⟨ordinary, ⟨thread, rfl, mem_cons_self ..⟩, ?_⟩
      intro serial success completed
      cases completed with
      | tail _ completed => exact untouched _ completed rfl
    · refine (inv.recorded target).congr (update_of_ne same ..)
        (update_of_ne same ..) (update_of_ne same ..) ?_
      exact mem_besides fun concerns => same concerns.symm
  · exact ⟨fun thread mem => untouched _ mem rfl, inv.proper⟩

theorem Invariant.start (initialises : Initialises state thread top)
    (unstarted : .started top.target ∉ state.history) :
    Invariant program ((state.record (.started top.target)).setStack thread
      (⟨top.target, top.serial, .clinit⟩ :: below)) := by
  apply inv.replace running (by rfl) (by rfl)
  · exact ⟨initialises.status, initialises.initingTid, initialises.initiator⟩
  · intro other act located deeper
    by_cases same : act.target = top.target
    · exact located.besides initialises deeper same
    · refine located.congr rfl rfl rfl (.inl rfl) ?_
      intro started
      rcases mem_cons.mp started with equal | started
      · injection equal with equal
        exact absurd equal same
      · exact started
  · intro target
    have chronicle := inv.recorded target
    obtain rfl | same := eq_or_ne target top.target
    · simp only [Chronicle, record, setStack, initialises.status] at chronicle ⊢
      simpa only [mem_cons, reduceCtorEq, false_or] using chronicle
    · refine chronicle.congr rfl rfl rfl ?_
      exact mem_besides fun concerns => same concerns.symm
  · exact ⟨unstarted, inv.proper⟩

theorem Invariant.complete (initialises : Initialises state thread top) (success : Bool)
    (raised : success = false → state.exception thread ≠ none) :
    Invariant program (((state.setStatus top.target (if success then .inited else .bad)).record
      (.completed top.target top.serial success)).setStack thread
        (⟨top.target, top.serial, .ret (if success then some top.target else none)⟩ :: below)) := by
  have chronicle := inv.recorded top.target
  simp only [Chronicle, initialises.status] at chronicle
  apply inv.replace running (by rfl) (by rfl)
  · cases success with
    | true =>
      refine ⟨rfl, .inl ?_⟩
      simp [setStatus, record, setStack]
    | false =>
      refine ⟨?_, .inr ⟨initialises.initiator, raised rfl⟩⟩
      simp [setStatus, record, setStack]
  · intro other act located deeper
    by_cases same : act.target = top.target
    · exact located.besides initialises deeper same
    · refine located.congr (update_of_ne same ..) rfl rfl (.inl rfl) ?_
      intro started
      cases started with
      | tail _ started => exact started
  · intro target
    obtain rfl | same := eq_or_ne target top.target
    · cases success with
      | true =>
        simp only [Chronicle, setStatus, record, setStack, update_self, if_true]
        exact ⟨chronicle.1, top.serial, mem_cons_self ..⟩
      | false =>
        simp only [Chronicle, setStatus, record, setStack,
          update_self, Bool.false_eq_true, if_false]
        exact ⟨chronicle.1, top.serial, initialises.initiator, mem_cons_self ..⟩
    · refine (inv.recorded target).congr (update_of_ne same ..) rfl rfl ?_
      exact mem_besides fun concerns => same concerns.symm
  · exact ⟨⟨chronicle.1, chronicle.2.2⟩, inv.proper⟩

end

theorem Invariant.push (thread : Thread)
    (nests : ∀ act ∈ (state.stack thread).head?, act.location.nests = true)
    (target : Class) : Invariant program (state.push thread target (state.stack thread)) where
  layered other := by
    obtain rfl | same := eq_or_ne other thread
    · simpa only [State.push, setStack, update_self] using
        (inv.layered other).push nests target .check
    · simpa only [State.push, setStack, update_of_ne same] using
        (inv.layered other).mono (Nat.le_succ _)
  located other act mem := by
    obtain rfl | same := eq_or_ne other thread
    · simp only [State.push, setStack, update_self] at mem
      cases mem with
      | head => trivial
      | tail _ mem => exact (inv.located other act mem).congr rfl rfl rfl (.inl rfl) id
    · simp only [State.push, setStack, update_of_ne same] at mem
      exact (inv.located other act mem).congr rfl rfl rfl (.inl rfl) id
  recorded target := (inv.recorded target).congr rfl rfl rfl fun _ _ => Iff.rfl
  proper := inv.proper

theorem Invariant.callSuper (running : state.stack thread = top :: below)
    (here : Located state thread ⟨top.target, top.serial, .superCalled⟩) (super : Class) :
    Invariant program
      (state.push thread super (⟨top.target, top.serial, .superCalled⟩ :: below)) := by
  have waiting := inv.goto running .superCalled here
  have pushed := waiting.push thread (by simp [setStack, Location.nests]) super
  simpa only [State.push, setStack, update_self, update_idem] using pushed

omit [DecidableEq Thread] in
theorem Invariant.nests (running : state.runsJava thread = true) :
    ∀ act ∈ state.stack thread, act.location.nests = true := by
  have nested := (inv.layered thread).nested
  cases known : state.stack thread with
  | nil => simp
  | cons top =>
    simp only [State.runsJava, known] at running
    rw [known] at nested
    intro act mem
    cases mem with
    | head =>
      revert running
      cases top.location <;> simp [Location.nests, runsJava]
    | tail _ mem => exact nested act mem

theorem Invariant.raise (running : state.runsJava thread = true)
    (exception : Option (Throwable Class)) :
    Invariant program (state.setException thread exception) where
  __ := inv
  located other act mem := by
    refine (inv.located other act mem).congr rfl rfl rfl ?_ id
    obtain rfl | same := eq_or_ne other thread
    · exact .inr (inv.nests running act mem)
    · exact .inl (update_of_ne same ..)
  recorded target := (inv.recorded target).congr rfl rfl rfl fun _ _ => Iff.rfl

omit [DecidableEq Thread] in
theorem Invariant.link [DecidableEq Class] (loaded : state.status target = .loaded) :
    Invariant program (state.setStatus target .linked) where
  __ := inv
  located other act mem := by
    have located := inv.located other act mem
    obtain rfl | same := eq_or_ne act.target target
    · exact located.fresh (.inl loaded)
    · exact located.congr (update_of_ne same ..) rfl rfl (.inl rfl) id
  recorded subject := by
    have chronicle := inv.recorded subject
    obtain rfl | same := eq_or_ne subject target
    · simpa only [Chronicle, loaded, setStatus, update_self] using chronicle
    · exact chronicle.congr (update_of_ne same ..) rfl rfl fun _ _ => Iff.rfl

end

end

/-! ## Every run -/

section
variable {Thread : Type u} {Class : Type v} [DecidableEq Thread] [DecidableEq Class]
  {program : Program Class} {state next : State Thread Class} {thread : Thread}
  {top : Activation Class} {below : List (Activation Class)}
  {wrapper : Option (Throwable Class)}

theorem Invariant.advance (inv : Invariant program state)
    (running : state.stack thread = top :: below)
    (ran : advance program state thread top below wrapper = some next) :
    Invariant program next := by
  have located := inv.located thread top (running ▸ mem_cons_self ..)
  unfold Init.advance at ran
  unfold Located at located
  cases location : top.location
  all_goals simp only [location] at ran located
  case check =>
    split at ran
    · rename_i ready
      cases ran
      exact inv.goto running _ ⟨rfl, .inl ready⟩
    · cases ran
      exact inv.goto running _ trivial
  case link =>
    obtain ⟨-, rfl⟩ := of_guard ran
    exact inv.goto running _ trivial
  case enter =>
    split at ran
    · rename_i initing
      split at ran
      · rename_i self
        cases ran
        exact inv.goto running _ ⟨rfl, .inr ⟨initing, self⟩⟩
      · cases ran
        exact inv.goto running _ trivial
    · rename_i notIniting
      split at ran
      · rename_i ready
        cases ran
        exact inv.goto running _ ⟨rfl, .inl ready⟩
      · rename_i notReady
        split at ran
        · rename_i bad
          cases ran
          exact inv.goto running _ bad
        · rename_i notBad
          cases ran
          apply inv.begin running
          cases known : state.status top.target with
          | loaded => exact .inl rfl
          | linked => exact .inr rfl
          | initing => exact absurd known notIniting
          | bad => exact absurd known notBad
          | inited | array =>
            rw [known] at notReady
            exact absurd (by decide) notReady
          | prim =>
            rw [known] at notReady
            simp only [ClassState.value] at notReady
            omega
  case waiting =>
    cases ran
    exact inv.goto running _ trivial
  case signalling =>
    cases ran
    exact inv.gotoRaising running _ _ ⟨located, .inl (update_self ..)⟩
  case superclass =>
    have onward : Invariant program (state.setStack thread
        (⟨top.target, top.serial, .constants (program.constants top.target)⟩ :: below)) :=
      inv.goto running _ ⟨{ located.1 with }, located.2⟩
    split at ran
    · split at ran
      · cases ran
        exact inv.callSuper running ⟨{ located.1 with }, located.2⟩ _
      · cases ran
        exact onward
    · cases ran
      exact onward
  case superCalled =>
    split at ran
    · rename_i raised
      cases ran
      exact inv.goto running _ ⟨{ located.1 with }, raised⟩
    · cases ran
      exact inv.goto running _ ⟨{ located.1 with }, located.2⟩
  case constants remaining =>
    cases remaining with
    | zero =>
      dsimp only at ran
      split at ran
      · cases ran
        exact inv.start running located.1 located.2
      · cases ran
        exact inv.goto running _ { located.1 with }
    | succ =>
      cases ran
      exact inv.goto running _ ⟨{ located.1 with }, located.2⟩
  case clinit =>
    cases ran
    exact inv.goto running _ { located with }
  case finished =>
    split at ran
    · cases ran
      exact inv.gotoRaising running _ _ { located with }
    · cases ran
      exact inv.goto running _ { located with }
  case wrap =>
    cases ran
    refine inv.gotoRaising running _ _ ⟨{ located with }, ?_⟩
    simp [State.setException]
  case setState success =>
    cases ran
    cases success with
    | true => exact inv.complete running located true (by simp)
    | false => exact inv.complete running located.1 false fun _ => located.2
  case ret =>
    cases ran
    exact inv.return running location

theorem Invariant.step (inv : Invariant program state)
    (ran : step program state action = some next) : Invariant program next := by
  cases action with
  | call =>
    obtain ⟨running, rfl⟩ := of_guard ran
    apply inv.push
    intro act mem
    exact inv.nests running act (List.mem_of_mem_head? mem)
  | raise | «catch» =>
    obtain ⟨running, rfl⟩ := of_guard ran
    exact inv.raise running _
  | proceed =>
    simp only [Init.step] at ran
    split at ran
    · cases ran
    · rename_i running
      exact inv.advance running ran
  | link =>
    obtain ⟨permitted, rfl⟩ := of_guard ran
    exact inv.link permitted.1

omit [DecidableEq Thread] [DecidableEq Class] in
theorem invariant_start (program : Program Class) :
    Invariant program (start program : State Thread Class) where
  layered _ := ⟨.nil, by simp [start], by simp [start]⟩
  located _ _ mem := by cases mem
  recorded target := by
    unfold Chronicle
    simp only [start]
    cases kind : program.kind target <;> simp [Kind.created, Ordinary, kind]
  proper := trivial

theorem invariant_reachable (reachable : (system program).Reachable state) :
    Invariant program state := by
  apply TransitionSystem.ReachableWhile.invariant (Invariant program) _ _ reachable
  · intro state initial
    cases initial
    exact invariant_start program
  · intro current action next inv _ ran
    exact inv.step ran

end

end JamVM.Class.Init
