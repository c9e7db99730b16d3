import JamVM.Lock.Interrupt

/-! # Interrupts and waits: the invariant

Each part of the invariant says something about one thread at a time. A step
changes the variables of one thread; what it may do to the others is said once,
by `Undisturbed`.
-/

namespace JamVM.Lock.Interrupt

open WaitPoint

variable {Thread : Type u} {Monitor : Type v}

/-! ## Where threads stand -/

def WaitPoint.InWindow (point : WaitPoint) : Prop :=
  point = .disown ∨ point = .publish ∨ point = .reset ∨ point = .append

instance (point : WaitPoint) : Decidable point.InWindow := inferInstanceAs (Decidable (_ ∨ _))

def Location.InWindow : Location Thread Monitor → Prop
  | .waiting _ point => point.InWindow
  | _ => False

instance (location : Location Thread Monitor) : Decidable location.InWindow :=
  match location with
  | .waiting _ point => inferInstanceAs (Decidable point.InWindow)
  | .idle | .acquiring _ | .claiming _ | .releasing _ | .interrupting _ _ => isFalse id

def Location.marked : Location Thread Monitor → Option Thread
  | .interrupting _ .mark => none
  | .interrupting target _ => some target
  | _ => none

def WaitPoint.Sleepy (point : WaitPoint) : Prop := point = .enter ∨ point = .asleep

def Location.held : Location Thread Monitor → Option Monitor
  | .idle | .acquiring _ => none
  | .claiming monitor | .releasing monitor => some monitor
  | .waiting wait point =>
    match point with
    | .disown | .asleep | .reacquire | .finish => none
    | _ => some wait.monitor
  | .interrupting _ point =>
    match point with
    | .signal monitor true | .unlock monitor => some monitor
    | _ => none

def Location.owned : Location Thread Monitor → Option Monitor
  | .waiting wait .disown | .waiting wait .finish => some wait.monitor
  | _ => none

def Location.joined : Location Thread Monitor → Option Monitor
  | .waiting wait point =>
    match point with
    | .test | .enter | .asleep | .reacquire | .leave => some wait.monitor
    | _ => none
  | _ => none

def Location.published : Location Thread Monitor → Option Monitor
  | .waiting wait point =>
    match point with
    | .disown | .publish | .reown | .finish => none
    | _ => some wait.monitor
  | _ => none

attribute [simp] WaitPoint.InWindow WaitPoint.Sleepy Location.held Location.owned Location.joined
  Location.published Location.isWaiting

section
variable (state : State Thread Monitor)

def Pursuit (target : Thread) (wait : Wait Monitor)
    (point : WaitPoint) : InterruptPoint Monitor → Prop
  | .mark => True
  | .readMonitor => state.interrupted target = true
  | .readNext monitor | .raise monitor =>
    state.interrupted target = true ∧ wait.monitor = monitor ∧ ¬ point.InWindow
  | .trylock monitor | .readOwner monitor =>
    state.interrupted target = true ∧ wait.monitor = monitor ∧ ¬ point.InWindow ∧
      state.interrupting target = true
  | .signal monitor _ =>
    state.interrupted target = true ∧ wait.monitor = monitor ∧ ¬ point.InWindow ∧
      state.interrupting target = true ∧ point ≠ .enter
  | .unlock monitor =>
    state.interrupted target = true ∧ wait.monitor = monitor ∧ ¬ point.InWindow ∧
      state.interrupting target = true ∧ ¬ point.Sleepy

structure Escaping (thread : Thread) (wait : Wait Monitor) (point : WaitPoint) : Prop where
  interrupted : state.interrupted thread = true
  past : ¬ point.InWindow
  awake : ¬ point.Sleepy
  leaves : point = .test ∨ point = .reacquire →
    state.interrupting thread = true ∨ thread ∉ state.waitSet wait.monitor

/-! The invariant has three parts: who holds mutexes, who is on the wait sets,
and how far interrupts have come. -/

structure Locks : Prop where
  ownerMutex : ∀ monitor thread, state.owner monitor = some thread →
    state.mutex monitor = some thread
  held : ∀ thread monitor, (state.location thread).held = some monitor →
    state.mutex monitor = some thread ∧ state.owner monitor ≠ some thread
  owned : ∀ thread monitor, (state.location thread).owned = some monitor →
    state.owner monitor = some thread

structure WaitSets : Prop where
  nodup : ∀ monitor, (state.waitSet monitor).Nodup
  joined : ∀ monitor thread, thread ∈ state.waitSet monitor →
    (state.location thread).joined = some monitor
  sleepy : ∀ thread wait point, state.location thread = .waiting wait point →
    point.Sleepy → thread ∈ state.waitSet wait.monitor
  leaving : ∀ thread wait, state.location thread = .waiting wait .leave →
    thread ∈ state.waitSet wait.monitor → state.interrupting thread = true ∨ wait.timeout = true
  published : ∀ thread, state.waitMonitor thread = (state.location thread).published

structure Interrupts : Prop where
  pursuit : ∀ thread target interruptPoint,
    state.location thread = .interrupting target interruptPoint →
    ∀ wait point, state.location target = .waiting wait point →
      Pursuit state target wait point interruptPoint
  struck : ∀ thread, state.struck thread = true → ∀ wait point,
    state.location thread = .waiting wait point → Escaping state thread wait point

end

/-! ## Threads that do not take the step -/

inductive Woken : Location Thread Monitor → Location Thread Monitor → Prop
  | same (location : Location Thread Monitor) : Woken location location
  | woken (wait changed : Wait Monitor) : changed.monitor = wait.monitor →
      Woken (.waiting wait .asleep) (.waiting changed .reacquire)

variable {pre post : Location Thread Monitor} {state next : State Thread Monitor}
  {thread self : Thread} {point : WaitPoint}

section
variable (woken : Woken pre post)
include woken

theorem Woken.held : post.held = pre.held := by
  cases woken <;> rfl

theorem Woken.owned : post.owned = pre.owned := by
  cases woken <;> rfl

theorem Woken.joined : post.joined = pre.joined := by
  cases woken with
  | same => rfl
  | woken wait changed equal => simp [Location.joined, equal]

theorem Woken.published : post.published = pre.published := by
  cases woken with
  | same => rfl
  | woken wait changed equal => simp [Location.published, equal]

end

structure Undisturbed (state next : State Thread Monitor) (thread : Thread) : Prop where
  woken : Woken (state.location thread) (next.location thread)
  waitMonitor : next.waitMonitor thread = state.waitMonitor thread
  interrupted : state.interrupted thread = true → next.interrupted thread = true
  interrupting : state.interrupting thread = true → next.interrupting thread = true
  mutex : ∀ monitor, state.mutex monitor = some thread → next.mutex monitor = some thread
  owner : ∀ monitor, next.owner monitor = some thread ↔ state.owner monitor = some thread
  waitSet : ∀ monitor, thread ∈ next.waitSet monitor → thread ∈ state.waitSet monitor
  awake : ∀ wait point, next.location thread = .waiting wait point → point.Sleepy →
    thread ∈ state.waitSet wait.monitor → thread ∈ next.waitSet wait.monitor

theorem Undisturbed.waiting (undisturbed : Undisturbed state next thread)
    (location : next.location thread = .waiting changed point) :
    ∃ wait pre, state.location thread = .waiting wait pre ∧ changed.monitor = wait.monitor ∧
        (pre = point ∧ wait = changed ∨ pre = .asleep ∧ point = .reacquire) := by
  have woken := undisturbed.woken
  rw [location] at woken
  generalize state.location thread = pre at woken
  cases woken with
  | same => exact ⟨changed, point, rfl, rfl, .inl ⟨rfl, rfl⟩⟩
  | woken wait _ equal => exact ⟨wait, .asleep, rfl, equal, .inr ⟨rfl, rfl⟩⟩

theorem Undisturbed.location_eq
    {point : InterruptPoint Monitor} (undisturbed : Undisturbed state next thread)
    (location : next.location thread = .interrupting target point) :
    state.location thread = .interrupting target point := by
  have woken := undisturbed.woken
  rw [location] at woken
  generalize state.location thread = pre at woken
  cases woken
  rfl

/-- A step from one point of a wait to another one, as far as interrupts are concerned. -/
structure OwnStep (state next : State Thread Monitor) (thread : Thread)
    (wait changed : Wait Monitor) (pre point : WaitPoint) : Prop where
  monitor : changed.monitor = wait.monitor
  window : point.InWindow → pre.InWindow
  interrupted : state.interrupted thread = true → next.interrupted thread = true
  interrupting : ¬ pre.InWindow → state.interrupting thread = true → next.interrupting thread = true
  enter : state.interrupting thread = true → point = .enter → pre = .enter
  sleepy : state.interrupting thread = true → point.Sleepy → pre.Sleepy
  escaping : Escaping state thread wait pre → Escaping next thread changed point

theorem OwnStep.pursuit (own : OwnStep state next thread wait changed old point)
    (chased : Pursuit state thread wait old interruptPoint) :
    Pursuit next thread changed point interruptPoint := by
  cases interruptPoint with
  | mark => trivial
  | readMonitor => exact own.interrupted chased
  | readNext | raise =>
    exact ⟨own.interrupted chased.1, own.monitor.trans chased.2.1, mt own.window chased.2.2⟩
  | trylock | readOwner =>
    obtain ⟨interrupted, same, past, interrupting⟩ := chased
    exact ⟨own.interrupted interrupted, own.monitor.trans same, mt own.window past,
      own.interrupting past interrupting⟩
  | signal =>
    obtain ⟨interrupted, same, past, interrupting, notEnter⟩ := chased
    exact ⟨own.interrupted interrupted, own.monitor.trans same, mt own.window past,
      own.interrupting past interrupting, mt (own.enter interrupting) notEnter⟩
  | unlock =>
    obtain ⟨interrupted, same, past, interrupting, awake⟩ := chased
    exact ⟨own.interrupted interrupted, own.monitor.trans same, mt own.window past,
      own.interrupting past interrupting, mt (own.sleepy interrupting) awake⟩

theorem Undisturbed.own (undisturbed : Undisturbed state next thread)
    (location : next.location thread = .waiting changed point) :
    ∃ wait pre, state.location thread = .waiting wait pre ∧
      OwnStep state next thread wait changed pre point := by
  obtain ⟨wait, pre, location, monitor, moved⟩ := undisturbed.waiting location
  refine ⟨wait, pre, location, ?_⟩
  rcases moved with ⟨rfl, -⟩ | ⟨rfl, rfl⟩
  · refine ⟨monitor, id, undisturbed.interrupted, fun _ => undisturbed.interrupting, fun _ => id,
      fun _ => id, fun escaping => ?_⟩
    refine ⟨undisturbed.interrupted escaping.interrupted, escaping.past, escaping.awake, ?_⟩
    intro point
    refine (escaping.leaves point).imp undisturbed.interrupting fun outside => ?_
    rw [monitor]
    exact mt (undisturbed.waitSet _) outside
  · exact ⟨monitor, by simp, undisturbed.interrupted, fun _ => undisturbed.interrupting, by simp,
      by simp, fun escaping => absurd (.inr rfl) escaping.awake⟩

theorem Undisturbed.pursuit (undisturbed : Undisturbed state next target)
    (location : next.location target = .waiting changed point)
    (pursuit : ∀ wait pre, state.location target = .waiting wait pre →
      Pursuit state target wait pre interruptPoint) :
    Pursuit next target changed point interruptPoint := by
  obtain ⟨wait, pre, location, own⟩ := undisturbed.own location
  exact own.pursuit (pursuit wait pre location)

theorem Undisturbed.escaping (undisturbed : Undisturbed state next thread)
    (location : next.location thread = .waiting changed point)
    (escaping : ∀ wait pre, state.location thread = .waiting wait pre →
      Escaping state thread wait pre) :
    Escaping next thread changed point := by
  obtain ⟨wait, pre, location, own⟩ := undisturbed.own location
  exact own.escaping (escaping wait pre location)

section
variable {state next : State Thread Monitor} {thread : Thread}

variable {monitor : Monitor}

section
variable (other : Undisturbed state next thread)
include other

namespace Undisturbed

theorem ownerMutex (locks : Locks state) (owns : next.owner monitor = some thread) :
    next.mutex monitor = some thread :=
  other.mutex monitor (locks.ownerMutex monitor thread ((other.owner monitor).mp owns))

theorem held (locks : Locks state) (holds : (next.location thread).held = some monitor) :
    next.mutex monitor = some thread ∧ next.owner monitor ≠ some thread := by
  rw [other.woken.held] at holds
  obtain ⟨mutex, notOwner⟩ := locks.held thread monitor holds
  exact ⟨other.mutex monitor mutex, mt (other.owner monitor).mp notOwner⟩

theorem owned (locks : Locks state) (owns : (next.location thread).owned = some monitor) :
    next.owner monitor = some thread := by
  rw [other.woken.owned] at owns
  exact (other.owner monitor).mpr (locks.owned thread monitor owns)

variable (sets : WaitSets state)
include sets

theorem joined (mem : thread ∈ next.waitSet monitor) :
    (next.location thread).joined = some monitor := by
  rw [other.woken.joined]
  exact sets.joined monitor thread (other.waitSet monitor mem)

theorem sleepy (location : next.location thread = .waiting wait point) (isSleepy : point.Sleepy) :
    thread ∈ next.waitSet wait.monitor := by
  apply other.awake wait point location isSleepy
  obtain ⟨old, pre, oldLocation, monitor, moved⟩ := other.waiting location
  rcases moved with ⟨rfl, -⟩ | ⟨-, rfl⟩
  · exact monitor ▸ sets.sleepy thread old pre oldLocation isSleepy
  · rcases isSleepy with wrong | wrong <;> cases wrong

theorem leaving (location : next.location thread = .waiting wait .leave)
    (mem : thread ∈ next.waitSet wait.monitor) :
    next.interrupting thread = true ∨ wait.timeout = true := by
  obtain ⟨old, pre, oldLocation, -, moved⟩ := other.waiting location
  rcases moved with ⟨rfl, rfl⟩ | ⟨-, wrong⟩
  · exact (sets.leaving thread old oldLocation (other.waitSet _ mem)).imp_left other.interrupting
  · cases wrong

theorem published : next.waitMonitor thread = (next.location thread).published := by
  rw [other.waitMonitor, other.woken.published]
  exact sets.published thread

end Undisturbed

end

end

/-! ## Assembling the invariant after a step -/

section
variable (others : ∀ thread, thread ≠ self → Undisturbed state next thread)
include others

theorem Locks.step (locks : Locks state)
    (ownerMutex : ∀ monitor, next.owner monitor = some self → next.mutex monitor = some self)
    (held : ∀ monitor, (next.location self).held = some monitor →
      next.mutex monitor = some self ∧ next.owner monitor ≠ some self)
    (owned : ∀ monitor, (next.location self).owned = some monitor →
      next.owner monitor = some self) : Locks next := by
  refine ⟨fun monitor thread owner => ?_, fun thread monitor holds => ?_,
    fun thread monitor owns => ?_⟩ <;> by_cases same : thread = self
  · exact same ▸ ownerMutex monitor (same ▸ owner)
  · exact (others thread same).ownerMutex locks owner
  · exact same ▸ held monitor (same ▸ holds)
  · exact (others thread same).held locks holds
  · exact same ▸ owned monitor (same ▸ owns)
  · exact (others thread same).owned locks owns

theorem WaitSets.step (sets : WaitSets state) (nodup : ∀ monitor, (next.waitSet monitor).Nodup)
    (joined : ∀ monitor, self ∈ next.waitSet monitor → (next.location self).joined = some monitor)
    (sleepy : ∀ wait point, next.location self = .waiting wait point → point.Sleepy →
      self ∈ next.waitSet wait.monitor)
    (leaving : ∀ wait, next.location self = .waiting wait .leave →
      self ∈ next.waitSet wait.monitor → next.interrupting self = true ∨ wait.timeout = true)
    (published : next.waitMonitor self = (next.location self).published) :
    WaitSets next := by
  refine ⟨nodup, fun monitor thread mem => ?_, fun thread wait point location isSleepy => ?_,
    fun thread wait location mem => ?_, fun thread => ?_⟩ <;> by_cases same : thread = self
  · exact same ▸ joined monitor (same ▸ mem)
  · exact (others thread same).joined sets mem
  · exact same ▸ sleepy wait point (same ▸ location) isSleepy
  · exact (others thread same).sleepy sets location isSleepy
  · exact same ▸ leaving wait (same ▸ location) (same ▸ mem)
  · exact (others thread same).leaving sets location mem
  · exact same ▸ published
  · exact (others thread same).published sets

theorem Interrupts.step (interrupts : Interrupts state)
    (own : ∀ wait point, next.location self = .waiting wait point →
      (∀ thread interruptPoint, state.location thread = .interrupting self interruptPoint →
        Pursuit next self wait point interruptPoint) ∧
      (next.struck self = true → Escaping next self wait point))
    (chase : ∀ target interruptPoint, next.location self = .interrupting target interruptPoint →
      ∀ wait point, next.location target = .waiting wait point →
        Pursuit next target wait point interruptPoint)
    (struck : ∀ thread, thread ≠ self → next.struck thread = true →
      state.struck thread = true ∨ ∀ wait point, next.location thread = .waiting wait point →
        Escaping next thread wait point) :
    Interrupts next := by
  refine ⟨fun thread target interruptPoint location wait point targetLocation => ?_,
    fun thread isStruck wait point location => ?_⟩
  · by_cases same : thread = self
    · subst same
      exact chase target interruptPoint location wait point targetLocation
    · have pre := (others thread same).location_eq location
      obtain rfl | isTarget := eq_or_ne target self
      · exact (own wait point targetLocation).1 thread interruptPoint pre
      · exact (others target isTarget).pursuit targetLocation
          (interrupts.pursuit thread target interruptPoint pre)
  · by_cases same : thread = self
    · subst same
      exact (own wait point location).2 isStruck
    · rcases struck thread same isStruck with pre | escaping
      · exact (others thread same).escaping location (interrupts.struck thread pre)
      · exact escaping wait point location

end

theorem Undisturbed.refl (state : State Thread Monitor) (thread : Thread) :
    Undisturbed state state thread :=
  ⟨.same _, rfl, id, id, fun _ => id, fun _ => .rfl, fun _ => id, fun _ _ _ _ => id⟩

theorem Undisturbed.trans (pre : Undisturbed first second thread)
    (post : Undisturbed second third thread) :
    Undisturbed first third thread where
  woken := by
    have woken := pre.woken
    have rewoken := post.woken
    generalize first.location thread = start, third.location thread = final at *
    generalize second.location thread = middle at woken rewoken
    cases rewoken with
    | same => exact woken
    | woken wait changed equal =>
      cases woken
      exact .woken wait changed equal
  waitMonitor := post.waitMonitor.trans pre.waitMonitor
  interrupted := post.interrupted ∘ pre.interrupted
  interrupting := post.interrupting ∘ pre.interrupting
  mutex monitor := post.mutex monitor ∘ pre.mutex monitor
  owner monitor := (post.owner monitor).trans (pre.owner monitor)
  waitSet monitor := pre.waitSet monitor ∘ post.waitSet monitor
  awake wait point location sleepy mem := by
    refine post.awake wait point location sleepy ?_
    obtain ⟨old, earlier, oldLocation, monitor, moved⟩ := post.waiting location
    rcases moved with ⟨rfl, -⟩ | ⟨-, rfl⟩
    · exact monitor ▸ pre.awake old earlier oldLocation sleepy (monitor ▸ mem)
    · rcases sleepy with wrong | wrong <;> cases wrong

end JamVM.Lock.Interrupt
