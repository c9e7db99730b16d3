import JamVM.Lock.InterruptFrame

/-! # Interrupts keep up with their targets

Every step taken under `Separate` keeps the invariant.
-/

namespace JamVM.Lock.Interrupt

open List Undisturbed Function TransitionSystem Option

variable {Thread : Type u} {Monitor : Type v} {state next : State Thread Monitor}
  {thread self target : Thread} {monitor : Monitor} {changed : Wait Monitor} {pre point : WaitPoint}

/-! ## The parts of the invariant -/

/-- No thread is committed to sleep on the monitor; whoever holds the mutex can
rely on that. -/
def Calm (state : State Thread Monitor) (monitor : Monitor) : Prop :=
  ∀ thread wait, state.location thread = .waiting wait .enter → wait.monitor ≠ monitor

theorem Locks.calm (locks : Locks state) (mutex : state.mutex monitor = some self)
    (elsewhere : ∀ wait, state.location self ≠ .waiting wait .enter) :
    Calm state monitor := by
  rintro thread wait location rfl
  have held := (locks.held thread wait.monitor (by rw [location]; rfl)).1
  obtain rfl := some.inj (held.symm.trans mutex)
  exact elsewhere wait location

theorem Locks.not_enter
    (locks : Locks state) (location : state.location target = .waiting wait waitPoint)
    (unavailable : state.mutex wait.monitor = some target →
      state.owner wait.monitor = some target) : waitPoint ≠ .enter := by
  rintro rfl
  obtain ⟨mutex, notOwner⟩ := locks.held target wait.monitor (by rw [location]; rfl)
  exact notOwner (unavailable mutex)

theorem WaitSets.not_mem_of_joined_none (self : Thread) (sets : WaitSets state)
    (outside : (state.location self).joined = none) (monitor : Monitor) :
    self ∉ state.waitSet monitor := by
  intro mem
  cases outside.symm.trans (sets.joined monitor self mem)

theorem WaitSets.stay (sets : WaitSets state)
    (others : ∀ thread, thread ≠ self → Undisturbed state next thread)
    (same : next.waitSet = state.waitSet)
    (joined : (next.location self).joined = (state.location self).joined)
    (awake : ∀ wait point, next.location self = .waiting wait point → ¬ point.Sleepy ∧
      point ≠ .leave)
    (published : next.waitMonitor self = (next.location self).published) :
    WaitSets next := by
  refine sets.step others (same ▸ sets.nodup) ?_ ?_ ?_ published
  · intro monitor mem
    rw [joined]
    exact sets.joined monitor self (same ▸ mem)
  · intro wait point location sleepy
    exact absurd sleepy (awake wait point location).1
  · intro wait location
    exact absurd rfl (awake wait .leave location).2

theorem OwnStep.plain
    (monitor : changed.monitor = wait.monitor) (window : point.InWindow → pre.InWindow)
    (interrupted : state.interrupted self = true → next.interrupted self = true)
    (interrupting : ¬ pre.InWindow → state.interrupting self = true → next.interrupting self = true)
    (awake : ¬ point.Sleepy)
    (leaves : point = .test ∨ point = .reacquire → pre.InWindow ∨ pre = .reacquire ∧
      next.waitSet = state.waitSet) :
    OwnStep state next self wait changed pre point where
  monitor := monitor
  window := window
  interrupted := interrupted
  interrupting := interrupting
  enter _ isEnter := absurd (.inl isEnter) awake
  sleepy _ isSleepy := absurd isSleepy awake
  escaping escaping := by
    refine ⟨interrupted escaping.interrupted, mt window escaping.past, awake, fun isPoint => ?_⟩
    rcases leaves isPoint with inWindow | ⟨reacquire, same⟩
    · exact absurd inWindow escaping.past
    · rw [monitor, same]
      exact (escaping.leaves (.inr reacquire)).imp_left (interrupting escaping.past)

structure Kept (state next : State Thread Monitor) : Prop where
  nodup : (∀ found, (state.waitSet found).Nodup) → ∀ found, (next.waitSet found).Nodup
  struck : next.struck = state.struck

theorem Kept.refl (state : State Thread Monitor) : Kept state state := ⟨id, rfl⟩

theorem Kept.trans (first : Kept state middle) (second : Kept middle next) : Kept state next :=
  ⟨second.nodup ∘ first.nodup, second.struck.trans first.struck⟩

structure Invariant (state : State Thread Monitor) : Prop where
  locks : Locks state
  sets : WaitSets state
  interrupts : Interrupts state

theorem Invariant.of_undisturbed (inv : Invariant state)
    (undisturbed : ∀ thread, Undisturbed state next thread) (kept : Kept state next) :
    Invariant next := by
  have ⟨locks, sets, interrupts⟩ := inv
  refine ⟨⟨?_, ?_, ?_⟩, ⟨kept.nodup sets.nodup, ?_, ?_, ?_, ?_⟩, ⟨?_, ?_⟩⟩
  · exact fun monitor thread => (undisturbed thread).ownerMutex locks
  · exact fun thread monitor => (undisturbed thread).held locks
  · exact fun thread monitor => (undisturbed thread).owned locks
  · exact fun monitor thread => (undisturbed thread).joined sets
  · exact fun thread wait point => (undisturbed thread).sleepy sets
  · exact fun thread wait => (undisturbed thread).leaving sets
  · exact fun thread => (undisturbed thread).published sets
  · intro thread target interruptPoint location wait point waiting
    exact (undisturbed target).pursuit waiting (interrupts.pursuit thread target interruptPoint
      ((undisturbed thread).location_eq location))
  · intro thread isStruck wait point waiting
    exact (undisturbed thread).escaping waiting (interrupts.struck thread (kept.struck ▸ isStruck))

attribute [local simp] initialState

theorem Invariant.initial : Invariant (initialState : State Thread Monitor) where
  locks := ⟨by simp, by simp, by simp⟩
  sets := ⟨by simp, by simp, by simp,
    by simp, by simp⟩
  interrupts := ⟨by simp, by simp⟩

/-- The interrupts of a thread keep out of its window: it checks `interrupted`
only while no interrupt of it is past its first write, and no interrupt reads
its `wait_mon` inside the window. -/
def Separate (state : State Thread Monitor) : Action Thread Monitor → Prop
  | .wait self _ _ _ => ∀ thread, (state.location thread).marked ≠ some self
  | .proceed self =>
    match state.location self with
    | .interrupting target .readMonitor => ¬ (state.location target).InWindow
    | _ => True
  | _ => True

theorem Separate.mark (separate : Separate state (.wait self monitor timed interruptible))
    (location : state.location thread = .interrupting self interruptPoint) :
    interruptPoint = .mark := by
  have unmarked := separate thread
  rw [location] at unmarked
  cases interruptPoint <;> simp [Location.marked] at unmarked ⊢

theorem Separate.readMonitor (separate : Separate state (.proceed self))
    (location : state.location self = .interrupting target .readMonitor)
    (waiting : state.location target = .waiting wait waitPoint) : ¬ waitPoint.InWindow := by
  rw [Separate, location] at separate
  dsimp only at separate
  rwa [waiting] at separate

def Action.actor : Action Thread Monitor → Option Thread
  | .lock self _ | .unlock self _ | .wait self _ _ _ | .interrupt self _ | .clear self
  | .proceed self => some self
  | .notify _ _ | .notifyAll _ _ | .expire _ | .wake _ => none

/-! Updates of one variable by a thread that has the right to it. -/

section
variable [DecidableEq Monitor]

theorem Undisturbed.setOwner (locks : Locks state) (ne : thread ≠ self)
    (mutex : state.mutex monitor = some self) (mine : value ≠ some thread) :
    Undisturbed state { state with owner := update state.owner monitor value }
      thread := by
  refine { refl state thread with owner := fun found => ?_ }
  simp only [update_apply]
  split
  · rename_i same
    refine ⟨fun wrong => absurd wrong mine, fun wrong => ?_⟩
    have held := locks.ownerMutex found thread wrong
    rw [same, mutex] at held
    exact absurd (some.inj held).symm ne
  · rfl

theorem Undisturbed.setMutex (mutex : state.mutex monitor ≠ some thread) :
    Undisturbed state { state with mutex := update state.mutex monitor value }
      thread := by
  refine { refl state thread with mutex := fun found held => ?_ }
  simp only [update_apply]
  split
  · rename_i same
    exact absurd (same ▸ held) mutex
  · exact held

section
variable (locks : Locks state)
  (others : ∀ thread, thread ≠ self → Undisturbed state next thread)
include locks others

omit [DecidableEq Monitor] in
theorem Locks.stay
    (mutex : ∀ monitor, state.mutex monitor = some self → next.mutex monitor = some self)
    (owner : ∀ monitor, next.owner monitor = some self ↔ state.owner monitor = some self)
    (held : (next.location self).held = none ∨
      (next.location self).held = (state.location self).held)
    (owned : (next.location self).owned = none ∨
      (next.location self).owned = (state.location self).owned) : Locks next := by
  refine locks.step others ?_ ?_ ?_
  · intro monitor owns
    exact mutex monitor (locks.ownerMutex monitor self ((owner monitor).mp owns))
  · intro monitor holds
    rcases held with none | same
    · cases none.symm.trans holds
    · obtain ⟨isMutex, notOwner⟩ := locks.held self monitor (same ▸ holds)
      exact ⟨mutex monitor isMutex, mt (owner monitor).mp notOwner⟩
  · intro monitor owns
    rcases owned with none | same
    · cases none.symm.trans owns
    · exact (owner monitor).mpr (locks.owned self monitor (same ▸ owns))

theorem Locks.setMutex (notOwner : state.owner monitor ≠ some self)
    (mutex : next.mutex = update state.mutex monitor value) (owner : next.owner = state.owner)
    (held : ∀ found, (next.location self).held = some found → found = monitor ∧ value = some self)
    (owned : (next.location self).owned = none) : Locks next := by
  refine locks.step others ?_ ?_ ?_
  · intro found owns
    rw [owner] at owns
    have ne : found ≠ monitor := fun same => notOwner (same ▸ owns)
    rw [mutex, update_of_ne ne]
    exact locks.ownerMutex found self owns
  · intro found holds
    obtain ⟨rfl, rfl⟩ := held found holds
    exact ⟨by rw [mutex, update_self], owner ▸ notOwner⟩
  · intro found owns
    cases owned.symm.trans owns

theorem Locks.acquire (free : state.mutex monitor = none)
    (mutex : next.mutex = update state.mutex monitor (some self)) (owner : next.owner = state.owner)
    (held : ∀ found, (next.location self).held = some found → found = monitor)
    (owned : (next.location self).owned = none) : Locks next := by
  refine locks.setMutex others ?_ mutex owner (fun found holds => ⟨held found holds, rfl⟩) owned
  intro owns
  cases free.symm.trans (locks.ownerMutex monitor self owns)

theorem Locks.setOwner (isMutex : state.mutex monitor = some self)
    (mutex : next.mutex = state.mutex)
    (owner : next.owner = update state.owner monitor value)
    (held : ∀ found, (next.location self).held = some found → found = monitor ∧ value ≠ some self)
    (owned : ∀ found, (next.location self).owned = some found →
      found = monitor ∧ value = some self) : Locks next := by
  refine locks.step others ?_ ?_ ?_
  · intro found owns
    rw [mutex]
    by_cases same : found = monitor
    · exact same ▸ isMutex
    · rw [owner, update_of_ne same] at owns
      exact locks.ownerMutex found self owns
  · intro found holds
    obtain ⟨rfl, other⟩ := held found holds
    rw [mutex, owner, update_self]
    exact ⟨isMutex, other⟩
  · intro found owns
    obtain ⟨rfl, rfl⟩ := owned found owns
    rw [owner, update_self]

end

end

/-! ## Moves -/

section
variable [DecidableEq Thread]

@[simp]
theorem moveTo_location_self (state : State Thread Monitor) (thread : Thread)
    (location : Location Thread Monitor) :
    (state.moveTo thread location).location thread = location :=
  update_self ..

theorem moveTo_location_of_ne (ne : other ≠ thread)
    (state : State Thread Monitor) (location : Location Thread Monitor) :
    (state.moveTo thread location).location other = state.location other :=
  update_of_ne ne ..

theorem moveTo_waiting
    (moved : (state.moveTo self (.waiting wait pre)).location self = .waiting changed point) :
    wait = changed ∧ pre = point := by
  simpa using moved

theorem condSignal_undisturbed (state : State Thread Monitor) (signalled thread : Thread) :
    Undisturbed state (condSignal state signalled) thread := by
  unfold condSignal
  split
  · rename_i wait location
    refine ⟨?_, rfl, id, id, fun _ => id, fun _ => .rfl, fun _ => id, fun _ _ _ _ => id⟩
    obtain rfl | same := eq_or_ne thread signalled
    · rw [location, moveTo_location_self]
      exact .woken wait wait rfl
    · rw [moveTo_location_of_ne same]
      exact .same _
  · exact .refl state thread

theorem condSignal_awake
    (location : (condSignal state thread).location thread = .waiting wait point) :
    point ≠ .asleep := by
  rintro rfl
  unfold condSignal at location
  split at location
  · simp at location
  · rename_i notAsleep
    exact notAsleep wait location

theorem condSignal_waitSet (state : State Thread Monitor) (thread : Thread) :
    (condSignal state thread).waitSet = state.waitSet := by
  unfold condSignal
  split <;> rfl

theorem condSignal_kept (state : State Thread Monitor) (thread : Thread) :
    Kept state (condSignal state thread) := by
  unfold condSignal
  split <;> exact ⟨id, rfl⟩

theorem linked_iff (location : state.location self = .waiting wait point) :
    linked state self = true ↔ self ∈ state.waitSet wait.monitor := by
  simp [linked, location]

theorem Undisturbed.moveTo {changed : State Thread Monitor}
    (undisturbed : Undisturbed state changed thread) (ne : thread ≠ self)
    (location : Location Thread Monitor) :
    Undisturbed state (changed.moveTo self location) thread := by
  have same := moveTo_location_of_ne ne changed location
  refine { undisturbed with woken := ?_, awake := ?_ }
  · rw [same]
    exact undisturbed.woken
  · rw [same]
    exact undisturbed.awake

theorem Undisturbed.moved (ne : thread ≠ self) (location : Location Thread Monitor) :
    Undisturbed state (state.moveTo self location) thread :=
  (refl state thread).moveTo ne location

theorem Undisturbed.complete {changed : State Thread Monitor}
    (undisturbed : Undisturbed state changed thread) (ne : thread ≠ self)
    (target : Thread) : Undisturbed state (complete changed self target) thread := by
  exact { undisturbed.moveTo ne .idle with }

@[simp]
theorem complete_location_self (state : State Thread Monitor) (self target : Thread) :
    (complete state self target).location self = .idle :=
  moveTo_location_self ..

theorem complete_struck (struck : (complete state self target).struck thread = true) :
    state.struck thread = true ∨ thread = target := by
  unfold complete at struck
  dsimp only at struck
  split at struck
  · rw [update_apply] at struck
    split at struck
    · exact .inr (by assumption)
    · exact .inl struck
  · exact .inl struck

variable [DecidableEq Monitor]

/-! ## Signals -/

theorem waitSetUnlinkThread_mem
    (mem : thread ∈ (waitSetUnlinkThread state monitor self).waitSet found) :
    thread ∈ state.waitSet found := by
  simp only [waitSetUnlinkThread, update_apply] at mem
  split at mem
  · rename_i same
    exact same ▸ mem_of_mem_erase mem
  · exact mem

theorem waitSetSignalNext_undisturbed (calm : Calm state monitor) (thread : Thread) :
    Undisturbed state (waitSetSignalNext state monitor) thread := by
  unfold waitSetSignalNext
  split
  · exact .refl state thread
  · rename_i head rest isSet
    have signalled := condSignal_undisturbed (waitSetUnlinkThread state monitor head) head thread
    refine { signalled with
      waitSet := fun found mem => waitSetUnlinkThread_mem (signalled.waitSet found mem)
      awake := ?_ }
    intro wait point location sleepy mem
    refine signalled.awake wait point location sleepy ?_
    simp only [waitSetUnlinkThread, update_apply]
    split
    · rename_i same
      rw [← same]
      refine (mem_erase_of_ne ?_).mpr mem
      rintro rfl
      rcases sleepy with rfl | rfl
      · obtain ⟨old, pre, oldLocation, equal, moved⟩ := signalled.waiting location
        obtain ⟨rfl, -⟩ : pre = .enter ∧ old = wait := by simpa using moved
        exact calm thread old oldLocation (equal ▸ same)
      · exact condSignal_awake location rfl
    · exact mem

theorem forward_undisturbed (calm : Calm state monitor)
    (self thread : Thread) : Undisturbed state (forward state self monitor) thread := by
  unfold forward
  split
  · exact .refl state thread
  · split
    · exact { waitSetSignalNext_undisturbed calm thread with }
    · exact .refl state thread

theorem abandon_undisturbed
    (locks : Locks state) (location : state.location self = .waiting wait .leave)
    (thread : Thread) : Undisturbed state (abandon state self wait.monitor) thread := by
  have calm : Calm state wait.monitor :=
    locks.calm (locks.held self wait.monitor (by rw [location]; rfl)).1 (by simp [location])
  unfold abandon
  split
  · refine { refl state thread with
      waitSet := fun _ => waitSetUnlinkThread_mem, awake := ?_ }
    intro found point other sleepy mem
    simp only [waitSetUnlinkThread, update_apply]
    split
    · rename_i same
      refine (mem_erase_of_ne ?_).mpr (same ▸ mem)
      rintro rfl
      cases location.symm.trans other
      rcases sleepy with wrong | wrong <;> cases wrong
    · exact mem
  · exact forward_undisturbed calm self thread

theorem waitSetUnlinkThread_kept (state : State Thread Monitor) (monitor : Monitor)
    (self : Thread) : Kept state (waitSetUnlinkThread state monitor self) := by
  refine ⟨fun nodup found => ?_, rfl⟩
  simp only [waitSetUnlinkThread, update_apply]
  split
  · exact (nodup monitor).erase self
  · exact nodup found

theorem waitSetSignalNext_kept (state : State Thread Monitor) (monitor : Monitor) :
    Kept state (waitSetSignalNext state monitor) := by
  unfold waitSetSignalNext
  split
  · exact .refl state
  · rename_i head _ _
    exact { (waitSetUnlinkThread_kept state monitor head).trans (condSignal_kept _ head) with }

theorem abandon_kept (state : State Thread Monitor) (self : Thread) (monitor : Monitor) :
    Kept state (abandon state self monitor) := by
  unfold abandon forward
  split
  · exact waitSetUnlinkThread_kept ..
  · split
    · exact .refl state
    · split
      · exact { waitSetSignalNext_kept state monitor with }
      · exact .refl state

theorem abandon_not_mem (locks : Locks state) (sets : WaitSets state)
    (location : state.location self = .waiting wait .leave)
    (monitor : Monitor) : self ∉ (abandon state self wait.monitor).waitSet monitor := by
  intro mem
  have pre := (abandon_undisturbed locks location self).waitSet monitor mem
  obtain rfl : wait.monitor = monitor := by simpa [location] using sets.joined monitor self pre
  have isLinked := (linked_iff location).mpr pre
  rw [abandon, if_pos isLinked] at mem
  simp [waitSetUnlinkThread, (sets.nodup wait.monitor).not_mem_erase] at mem

/-! ## The waiting thread -/

theorem waitStep_undisturbed (locks : Locks state)
    (location : state.location self = .waiting wait point) (ne : thread ≠ self)
    (ran : waitStep state self wait point = some next) :
    Undisturbed state next thread := by
  have held (holds : (state.location self).held = some wait.monitor) :=
    (locks.held self wait.monitor holds).1
  have notMine {monitor : Monitor} (mutex : state.mutex monitor = some self) :
      state.mutex monitor ≠ some thread := by
    intro wrong
    exact ne (some.inj (wrong.symm.trans mutex))
  cases point <;> simp only [waitStep, reduceCtorEq] at ran
  case disown =>
    cases ran
    have owner := locks.owned self wait.monitor (by rw [location]; rfl)
    exact (setOwner locks ne (locks.ownerMutex _ _ owner) (by simp)).moveTo ne _
  case publish | unpublish =>
    cases ran
    refine moveTo ?_ ne _
    refine { refl state thread with waitMonitor := ?_ }
    exact update_of_ne ne ..
  case reset =>
    cases ran
    refine moveTo ?_ ne _
    refine { refl state thread with interrupting := ?_ }
    exact fun raised => (update_of_ne ne ..).trans raised
  case append =>
    cases ran
    refine moveTo ?_ ne _
    refine { refl state thread with waitSet := ?_, awake := ?_ }
    · intro monitor mem
      simp only [waitSetAppend, update_apply] at mem
      split at mem
      · rename_i same
        rw [same]
        simpa [ne] using mem
      · exact mem
    · intro found _ _ _ mem
      simp only [waitSetAppend, update_apply]
      split
      · rename_i same
        exact mem_append_left _ (same ▸ mem)
      · exact mem
  case test => split at ran <;> cases ran <;> exact .moved ne _
  case enter =>
    cases ran
    exact (setMutex (notMine (held (by rw [location]; rfl)))).moveTo ne _
  case reacquire =>
    obtain ⟨free, rfl⟩ := of_guard ran
    exact (setMutex (by simp [free])).moveTo ne _
  case leave =>
    split at ran <;> cases ran
    · exact (abandon_undisturbed locks location thread).moveTo ne _
    · exact .moved ne _
  case reown =>
    cases ran
    exact (setOwner locks ne (held (by rw [location]; rfl)) (by simpa using ne.symm)).moveTo ne _
  case finish =>
    split at ran <;> cases ran
    · refine moveTo ?_ ne _
      refine { refl state thread with interrupted := ?_ }
      exact fun raised => (update_of_ne ne ..).trans raised
    · exact .moved ne _

theorem waitStep_locks (locks : Locks state) (location : state.location self = .waiting wait point)
    (ran : waitStep state self wait point = some next) : Locks next := by
  have others (thread : Thread) (ne : thread ≠ self) := waitStep_undisturbed locks location ne ran
  cases point <;> simp only [waitStep, reduceCtorEq] at ran
  case disown =>
    cases ran
    have owner := locks.owned self wait.monitor (by rw [location]; rfl)
    exact locks.setOwner others (locks.ownerMutex _ self owner) rfl rfl (by simp) (by simp)
  case publish | reset | append | unpublish =>
    cases ran
    exact locks.stay others (fun _ => id) (fun _ => .rfl) (.inr (by simp [location]))
      (.inl (by simp))
  case test =>
    split at ran <;> cases ran <;>
      exact locks.stay others (fun _ => id) (fun _ => .rfl) (.inr (by simp [location]))
        (.inl (by simp))
  case enter =>
    cases ran
    exact locks.setMutex others (locks.held self wait.monitor (by rw [location]; rfl)).2 rfl rfl
      (by simp) (by simp)
  case reacquire =>
    obtain ⟨free, rfl⟩ := of_guard ran
    exact locks.acquire others free rfl rfl (by simp) (by simp)
  case leave =>
    split at ran <;> cases ran
    · have abandoned := abandon_undisturbed locks location self
      exact locks.stay others abandoned.mutex abandoned.owner (.inr (by simp [location]))
        (.inl (by simp))
    · exact locks.stay others (fun _ => id) (fun _ => .rfl) (.inr (by simp [location]))
        (.inl (by simp))
  case reown =>
    cases ran
    exact locks.setOwner others (locks.held self wait.monitor (by rw [location]; rfl)).1 rfl rfl
      (by simp) (by simp)
  case finish =>
    split at ran <;> cases ran <;>
      exact locks.stay others (fun _ => id) (fun _ => .rfl) (.inl (by simp)) (.inl (by simp))

theorem waitStep_sets (locks : Locks state) (sets : WaitSets state)
    (location : state.location self = .waiting wait point)
    (ran : waitStep state self wait point = some next) : WaitSets next := by
  have others (thread : Thread) (ne : thread ≠ self) := waitStep_undisturbed locks location ne ran
  have published := sets.published self
  rw [location] at published
  cases point <;> simp only [waitStep, reduceCtorEq] at ran
  case disown | reset | reown =>
    cases ran
    exact sets.stay others rfl (by simp [location]) (by simp) (published.trans (by simp))
  case publish | unpublish =>
    cases ran
    exact sets.stay others rfl (by simp [location]) (by simp) (by simp [State.moveTo])
  case append =>
    cases ran
    have outside := sets.not_mem_of_joined_none self (by simp [location])
    refine sets.step others ?_ ?_ (by simp) (by simp) (published.trans (by simp))
    · intro monitor
      simp only [State.moveTo, waitSetAppend, update_apply]
      split
      · exact nodup_append.mpr ⟨sets.nodup wait.monitor, nodup_singleton self,
          fun thread mem other only => by
            rintro rfl
            exact outside wait.monitor ((mem_singleton.mp only) ▸ mem)⟩
      · exact sets.nodup monitor
    · intro monitor mem
      simp only [State.moveTo, waitSetAppend, update_apply] at mem
      split at mem
      · rename_i same
        simp [same]
      · exact absurd mem (outside monitor)
  case test =>
    have joined (monitor : Monitor) (mem : self ∈ state.waitSet monitor) :
        wait.monitor = monitor := by
      simpa [location] using sets.joined monitor self mem
    split at ran <;> cases ran
    · rename_i stays
      refine sets.step others sets.nodup ?_ ?_ (by simp) (published.trans (by simp))
      · intro monitor mem
        simp [joined monitor mem]
      · intro other point moved _
        obtain ⟨rfl, rfl⟩ : wait = other ∧ .enter = point := by simpa using moved
        exact (linked_iff location).mp stays.1
    · rename_i leaves
      refine sets.step others sets.nodup ?_ (by simp) ?_ (published.trans (by simp))
      · intro monitor mem
        simp [joined monitor mem]
      · intro other moved mem
        obtain rfl : wait = other := by simpa using moved
        by_contra neither
        refine leaves ⟨(linked_iff location).mpr mem, ?_⟩
        simpa [State.moveTo] using neither
  case enter =>
    cases ran
    refine sets.step others sets.nodup ?_ ?_ (by simp) (published.trans (by simp))
    · intro monitor mem
      have pre := sets.joined monitor self mem
      simpa [location] using pre
    · intro other point moved _
      obtain ⟨rfl, rfl⟩ : wait = other ∧ .asleep = point := by simpa using moved
      exact sets.sleepy self wait .enter location (.inl rfl)
  case reacquire =>
    split at ran <;> cases ran
    exact sets.stay others rfl (by simp [location]) (by simp) (published.trans (by simp))
  case leave =>
    split at ran <;> cases ran
    · have abandoned := abandon_undisturbed locks location self
      refine sets.step others ((abandon_kept ..).nodup sets.nodup) ?_ (by simp) (by simp) ?_
      · exact fun monitor mem => absurd mem (abandon_not_mem locks sets location monitor)
      · rw [moveTo_location_self]
        exact abandoned.waitMonitor.trans published
    · rename_i notified
      refine sets.step others sets.nodup ?_ (by simp) (by simp) (published.trans (by simp))
      intro monitor mem
      obtain rfl : wait.monitor = monitor := by simpa [location] using sets.joined monitor self mem
      exact absurd (sets.leaving self wait location mem) notified
  case finish =>
    split at ran <;> cases ran <;>
      exact sets.stay others rfl (by simp [location]) (by simp) (published.trans (by simp))

theorem waitStep_own (locks : Locks state) (location : state.location self = .waiting wait pre)
    (ran : waitStep state self wait pre = some next)
    (moved : next.location self = .waiting changed point) :
    OwnStep state next self wait changed pre point := by
  cases pre <;> simp only [waitStep, reduceCtorEq] at ran
  case disown | publish | append | unpublish | reown =>
    cases ran
    obtain ⟨rfl, rfl⟩ := moveTo_waiting moved
    exact .plain rfl (by simp) id (fun _ => id) (by simp) (by simp)
  case reset =>
    cases ran
    obtain ⟨rfl, rfl⟩ := moveTo_waiting moved
    exact .plain rfl (by simp) id (by simp) (by simp) (by simp)
  case test =>
    split at ran <;> cases ran
    · rename_i stays
      obtain ⟨rfl, rfl⟩ := moveTo_waiting moved
      refine ⟨rfl, by simp, id, fun _ => id, ?_, ?_, ?_⟩
      · exact fun interrupting => absurd interrupting stays.2.1
      · exact fun interrupting => absurd interrupting stays.2.1
      · intro escaping
        rcases escaping.leaves (.inl rfl) with interrupting | outside
        · exact absurd interrupting stays.2.1
        · exact absurd ((linked_iff location).mp stays.1) outside
    · obtain ⟨rfl, rfl⟩ := moveTo_waiting moved
      exact .plain rfl (by simp) id (fun _ => id) (by simp) (by simp)
  case enter =>
    cases ran
    obtain ⟨rfl, rfl⟩ := moveTo_waiting moved
    refine ⟨rfl, by simp, id, fun _ => id, by simp, ?_, ?_⟩
    · exact fun _ _ => .inl rfl
    · exact fun escaping => absurd (.inl rfl) escaping.awake
  case reacquire =>
    split at ran <;> cases ran
    obtain ⟨rfl, rfl⟩ := moveTo_waiting moved
    exact .plain rfl (by simp) id (fun _ => id) (by simp) (fun _ => .inr ⟨rfl, rfl⟩)
  case leave =>
    split at ran <;> cases ran
    · have abandoned := abandon_undisturbed locks location self
      obtain ⟨rfl, rfl⟩ := moveTo_waiting moved
      exact .plain rfl (by simp) abandoned.interrupted
        (fun _ => abandoned.interrupting) (by simp) (by simp)
    · obtain ⟨rfl, rfl⟩ := moveTo_waiting moved
      exact .plain rfl (by simp) id (fun _ => id) (by simp) (by simp)
  case finish => split at ran <;> cases ran <;> simp at moved

theorem waitStep_struck (ran : waitStep state self wait point = some next) :
    next.struck = state.struck := by
  cases point <;> simp only [waitStep] at ran <;> try split at ran
  all_goals cases ran <;> simp [State.moveTo, waitSetAppend, (abandon_kept ..).struck]

theorem waitStep_not_interrupting (ran : waitStep state self wait point = some next) :
    next.location self ≠ .interrupting target interruptPoint := by
  cases point <;> simp only [waitStep] at ran <;> try split at ran
  all_goals cases ran <;> simp

theorem Invariant.waitStep (inv : Invariant state)
    (location : state.location self = .waiting wait point)
    (ran : waitStep state self wait point = some next) : Invariant next := by
  have ⟨locks, sets, interrupts⟩ := inv
  refine ⟨waitStep_locks locks location ran, waitStep_sets locks sets location ran, ?_⟩
  have struck := waitStep_struck ran
  refine interrupts.step (fun thread ne => waitStep_undisturbed locks location ne ran) ?_ ?_ ?_
  · intro changed post moved
    have own := waitStep_own locks location ran moved
    refine ⟨fun thread interruptPoint chasing => ?_, fun isStruck => ?_⟩
    · exact own.pursuit (interrupts.pursuit thread self interruptPoint chasing wait point location)
    · exact own.escaping (interrupts.struck self (struck ▸ isStruck) wait point location)
  · intro target interruptPoint moved
    exact absurd moved (waitStep_not_interrupting ran)
  · intro thread _ isStruck
    exact .inl (struck ▸ isStruck)

/-! ## The interrupting thread -/

section
variable {point : InterruptPoint Monitor}

variable (state self target) in
/-- What a step of an interrupt does before the thread moves on to the next point, if there
is one. -/
inductive InterruptMove : InterruptPoint Monitor → State Thread Monitor →
    Option (InterruptPoint Monitor) → Prop
  | mark : InterruptMove .mark { state with interrupted := update state.interrupted target true }
      (some .readMonitor)
  | unpublished (isNone : state.waitMonitor target = none) : InterruptMove .readMonitor state none
  | published (isMonitor : state.waitMonitor target = some found) :
      InterruptMove .readMonitor state (some (.readNext found))
  | linked (isLinked : linked state target) :
      InterruptMove (.readNext found) state (some (.raise found))
  | unlinked (notLinked : ¬ linked state target) : InterruptMove (.readNext found) state none
  | raise : InterruptMove (.raise found)
      { state with interrupting := update state.interrupting target true } (some (.trylock found))
  | free (isFree : state.mutex found = none) : InterruptMove (.trylock found)
      { state with mutex := update state.mutex found (some self) } (some (.signal found true))
  | busy : InterruptMove (.trylock found) state (some (.readOwner found))
  | unowned : InterruptMove (.readOwner found) state (some (.trylock found))
  | owned (hasOwner : state.owner found ≠ none) :
      InterruptMove (.readOwner found) state (some (.signal found false))
  | signal : InterruptMove (.signal found true) (condSignal state target) (some (.unlock found))
  | signalLast : InterruptMove (.signal found false) (condSignal state target) none
  | unlock : InterruptMove (.unlock found)
      { state with mutex := update state.mutex found none } none

variable (state self target point) in
theorem interruptStep_move : ∃ reached post, InterruptMove state self target point reached post ∧
    interruptStep state self target point = post.elim (complete reached self target)
      fun post => reached.moveTo self (.interrupting target post) := by
  cases point with
  | mark => exact ⟨_, _, .mark, rfl⟩
  | readMonitor =>
    cases isMonitor : state.waitMonitor target with
    | none => exact ⟨_, _, .unpublished isMonitor, by simp [interruptStep, isMonitor]⟩
    | some => exact ⟨_, _, .published isMonitor, by simp [interruptStep, isMonitor]⟩
  | readNext =>
    by_cases isLinked : linked state target
    · exact ⟨_, _, .linked isLinked, if_pos isLinked⟩
    · exact ⟨_, _, .unlinked isLinked, if_neg isLinked⟩
  | raise => exact ⟨_, _, .raise, rfl⟩
  | trylock monitor =>
    by_cases isFree : state.mutex monitor = none
    · exact ⟨_, _, .free isFree, if_pos isFree⟩
    · exact ⟨_, _, .busy, if_neg isFree⟩
  | readOwner monitor =>
    by_cases isNone : state.owner monitor = none
    · exact ⟨_, _, .unowned, if_pos isNone⟩
    · exact ⟨_, _, .owned isNone, if_neg isNone⟩
  | signal monitor locked =>
    cases locked with
    | true => exact ⟨_, _, .signal, rfl⟩
    | false => exact ⟨_, _, .signalLast, rfl⟩
  | unlock => exact ⟨_, _, .unlock, rfl⟩

variable (state self target point) in
theorem interruptStep_location : (interruptStep state self target point).location self = .idle ∨
      ∃ post, (interruptStep state self target point).location self =
        .interrupting target post := by
  obtain ⟨reached, post, -, ran⟩ := interruptStep_move state self target point
  rw [ran]
  cases post with
  | none => exact .inl (complete_location_self ..)
  | some post => exact .inr ⟨post, moveTo_location_self ..⟩

section
variable (locks : Locks state) (location : state.location self = .interrupting target point)
include locks location

theorem InterruptMove.undisturbed (move : InterruptMove state self target point reached post)
    (ne : thread ≠ self) : Undisturbed state reached thread := by
  cases move with
  | mark =>
    refine { refl state thread with interrupted := fun raised => ?_ }
    simp [update_apply, raised]
  | raise =>
    refine { refl state thread with interrupting := fun raised => ?_ }
    simp [update_apply, raised]
  | free isFree => exact .setMutex (by simp [isFree])
  | signal | signalLast => exact condSignal_undisturbed state target thread
  | unlock =>
    have mutex := (locks.held self _ (by rw [location]; rfl)).1
    exact .setMutex fun wrong => ne (some.inj (wrong.symm.trans mutex))
  | _ => exact .refl state thread

theorem interruptStep_undisturbed (ne : thread ≠ self) :
    Undisturbed state (interruptStep state self target point) thread := by
  obtain ⟨reached, post, move, ran⟩ := interruptStep_move state self target point
  have undisturbed := move.undisturbed locks location ne
  rw [ran]
  cases post with
  | none => exact undisturbed.complete ne target
  | some => exact undisturbed.moveTo ne _

theorem interruptStep_sets (sets : WaitSets state) :
    WaitSets (interruptStep state self target point) := by
  have others (thread : Thread) (ne : thread ≠ self) := interruptStep_undisturbed locks location ne
  have published := sets.published self
  rw [location] at published
  obtain ⟨reached, post, move, ran⟩ := interruptStep_move state self target point
  have same : reached.waitSet = state.waitSet ∧
      reached.waitMonitor self = state.waitMonitor self := by
    cases move with
    | signal | signalLast =>
      exact ⟨condSignal_waitSet .., (condSignal_undisturbed state target self).waitMonitor⟩
    | _ => exact ⟨rfl, rfl⟩
  rw [ran] at others ⊢
  cases post <;>
    exact sets.stay others same.1 (by simp [location]) (by simp)
      (same.2.trans (published.trans (by simp)))

theorem interruptStep_locks : Locks (interruptStep state self target point) := by
  have others (thread : Thread) (ne : thread ≠ self) := interruptStep_undisturbed locks location ne
  obtain ⟨reached, post, move, ran⟩ := interruptStep_move state self target point
  rw [ran] at others ⊢
  cases move with
  | free isFree => exact locks.acquire others isFree rfl rfl (by simp) (by simp)
  | signal =>
    have signalled := condSignal_undisturbed state target self
    exact locks.stay others signalled.mutex signalled.owner (.inr (by simp [location]))
      (.inl (by simp))
  | signalLast =>
    have signalled := condSignal_undisturbed state target self
    exact locks.stay others signalled.mutex signalled.owner (.inl (by simp)) (.inl (by simp))
  | unlock =>
    exact locks.setMutex others (locks.held self _ (by rw [location]; rfl)).2 rfl rfl (by simp)
      (by simp)
  | _ => exact locks.stay others (fun _ => id) (fun _ => .rfl) (.inl (by simp)) (.inl (by simp))

end

theorem InterruptMove.struck (move : InterruptMove state self target point reached post) :
    reached.struck = state.struck := by
  cases move <;> first | rfl | exact (condSignal_kept ..).struck

theorem interruptStep_struck
    (struck : (interruptStep state self target point).struck thread = true) :
    state.struck thread = true ∨ thread = target ∧
      (interruptStep state self target point).location self = .idle := by
  obtain ⟨reached, post, move, ran⟩ := interruptStep_move state self target point
  rw [ran] at struck ⊢
  cases post with
  | none =>
    refine (complete_struck struck).imp (move.struck ▸ ·) fun isTarget => ⟨isTarget, ?_⟩
    exact complete_location_self ..
  | some => exact .inl (move.struck ▸ struck)

theorem Invariant.chased (inv : Invariant state)
    (location : state.location self = .interrupting target point)
    (move : InterruptMove state self target point reached post) (ne : target ≠ self)
    (waiting : reached.location target = .waiting wait waitPoint) :
    Pursuit reached target wait waitPoint point :=
  (move.undisturbed inv.locks location ne).pursuit waiting
    (inv.interrupts.pursuit self target point location)

section
variable (inv : Invariant state) (separate : Separate state (.proceed self))
  (location : state.location self = .interrupting target point)
include inv separate location

theorem interruptStep_pursuit
    (moved : (interruptStep state self target point).location self = .interrupting target post)
    (waiting : (interruptStep state self target point).location target = .waiting wait waitPoint) :
    Pursuit (interruptStep state self target point) target wait waitPoint post := by
  have ⟨locks, sets, interrupts⟩ := inv
  have ne : target ≠ self := by
    rintro rfl
    simp [moved] at waiting
  have published := sets.published target
  obtain ⟨reached, next, move, ran⟩ := interruptStep_move state self target point
  rw [ran] at moved waiting ⊢
  cases next with
  | none => simp at moved
  | some next =>
    obtain rfl : next = post := by simpa using moved
    have pre := (moveTo_location_of_ne ne ..).symm.trans waiting
    have chased := inv.chased location move ne pre
    cases move with
    | mark => exact update_self ..
    | published isMonitor =>
      refine ⟨chased, ?_, separate.readMonitor location pre⟩
      cases waitPoint <;> simp_all [Location.published]
    | linked | busy | unowned => exact chased
    | raise => exact ⟨chased.1, chased.2.1, chased.2.2, update_self ..⟩
    | free isFree =>
      obtain ⟨interrupted, rfl, past, interrupting⟩ := chased
      exact ⟨interrupted, rfl, past, interrupting, locks.not_enter pre (by simp [isFree])⟩
    | owned hasOwner =>
      obtain ⟨interrupted, rfl, past, interrupting⟩ := chased
      refine ⟨interrupted, rfl, past, interrupting, locks.not_enter pre fun mutex => ?_⟩
      obtain ⟨owner, isOwner⟩ := Option.ne_none_iff_exists'.mp hasOwner
      have held := locks.ownerMutex _ owner isOwner
      exact isOwner.trans (held.symm.trans mutex)
    | signal =>
      obtain ⟨interrupted, same, past, interrupting, notEnter⟩ := chased
      refine ⟨interrupted, same, past, interrupting, ?_⟩
      rintro (rfl | rfl)
      · exact notEnter rfl
      · exact condSignal_awake pre rfl

theorem interruptStep_escaping
    (completed : (interruptStep state self target point).location self = .idle)
    (waiting : (interruptStep state self target point).location target = .waiting wait waitPoint) :
    Escaping (interruptStep state self target point) target wait waitPoint := by
  have ⟨locks, sets, interrupts⟩ := inv
  have ne : target ≠ self := by
    rintro rfl
    simp [completed] at waiting
  have published := sets.published target
  obtain ⟨reached, next, move, ran⟩ := interruptStep_move state self target point
  rw [ran] at completed waiting ⊢
  cases next with
  | some => simp at completed
  | none =>
    have pre := (moveTo_location_of_ne ne ..).symm.trans waiting
    have chased := inv.chased location move ne pre
    suffices escaping : Escaping reached target wait waitPoint from { escaping with }
    cases move with
    | unpublished isNone =>
      rw [pre, isNone] at published
      refine ⟨chased, separate.readMonitor location pre, ?_, ?_⟩ <;>
        rintro (rfl | rfl) <;> simp at published
    | unlinked notLinked =>
      have outside := mt (linked_iff pre).mpr notLinked
      exact ⟨chased.1, chased.2.2, fun sleepy =>
        outside (sets.sleepy target wait waitPoint pre sleepy), fun _ => .inr outside⟩
    | signalLast =>
      obtain ⟨interrupted, -, past, interrupting, notEnter⟩ := chased
      refine ⟨interrupted, past, ?_, fun _ => .inl interrupting⟩
      rintro (rfl | rfl)
      · exact notEnter rfl
      · exact condSignal_awake pre rfl
    | unlock =>
      obtain ⟨interrupted, -, past, interrupting, awake⟩ := chased
      exact ⟨interrupted, past, awake, fun _ => .inl interrupting⟩

theorem Invariant.interruptStep : Invariant (interruptStep state self target point) := by
  have ⟨locks, sets, interrupts⟩ := inv
  refine ⟨interruptStep_locks locks location, interruptStep_sets locks location sets, ?_⟩
  have next := interruptStep_location state self target point
  refine interrupts.step (fun thread ne => interruptStep_undisturbed locks location ne) ?_ ?_ ?_
  · intro wait pre waiting
    rcases next with moved | ⟨post, moved⟩ <;> simp [moved] at waiting
  · intro other post moved wait pre waiting
    obtain rfl : target = other := by
      rcases next with idle | ⟨_, same⟩
      · simp [idle] at moved
      · simp [same] at moved
        exact moved.1
    exact interruptStep_pursuit inv separate location moved waiting
  · intro thread _ struck
    rcases interruptStep_struck struck with earlier | ⟨rfl, completed⟩
    · exact .inl earlier
    · exact .inr fun wait pre waiting =>
        interruptStep_escaping inv separate location completed waiting

end

end

/-! ## The remaining actions -/

theorem waitSetSignalNext_calm (calm : Calm state monitor) :
    Calm (waitSetSignalNext state monitor) monitor := by
  intro thread wait location
  obtain ⟨old, pre, oldLocation, equal, moved⟩ :=
    (waitSetSignalNext_undisturbed calm thread).waiting location
  obtain ⟨rfl, -⟩ : pre = .enter ∧ old = wait := by simpa using moved
  exact equal ▸ calm thread old oldLocation

theorem signalAll_undisturbed (waiters : List Thread)
    (calm : Calm state monitor) (thread : Thread) :
    Undisturbed state
      (waiters.foldl (fun state _ => waitSetSignalNext state monitor) state) thread := by
  induction waiters generalizing state with
  | nil => exact .refl state thread
  | cons waiter rest ih =>
    exact (waitSetSignalNext_undisturbed calm thread).trans (ih (waitSetSignalNext_calm calm))

theorem signalAll_kept (waiters : List Thread) (monitor : Monitor) :
    Kept state (waiters.foldl (fun state _ => waitSetSignalNext state monitor) state) := by
  induction waiters generalizing state with
  | nil => exact .refl state
  | cons waiter rest ih => exact (waitSetSignalNext_kept state monitor).trans ih

theorem proceed_undisturbed (locks : Locks state) (ran : proceed state self = some next)
    (ne : thread ≠ self) : Undisturbed state next thread := by
  unfold proceed at ran
  split at ran
  · cases ran
  · obtain ⟨free, rfl⟩ := of_guard ran
    exact (setMutex (by simp [free])).moveTo ne _
  · rename_i location
    cases ran
    have mutex := (locks.held self _ (by rw [location]; rfl)).1
    exact (setOwner locks ne mutex (by simpa using ne.symm)).moveTo ne _
  · rename_i location
    cases ran
    have mutex := (locks.held self _ (by rw [location]; rfl)).1
    exact (setMutex (by simpa [mutex] using ne.symm)).moveTo ne _
  · exact waitStep_undisturbed locks (by assumption) ne ran
  · cases ran
    exact interruptStep_undisturbed locks (by assumption) ne

theorem step_undisturbed (locks : Locks state) (ran : step state action = some next)
    (inactive : action.actor ≠ some thread) : Undisturbed state next thread := by
  have owner_calm {self : Thread} {monitor : Monitor} (idle : state.location self = .idle)
      (owner : state.owner monitor = some self) : Calm state monitor :=
    locks.calm (locks.ownerMutex monitor self owner) (by simp [idle])
  have ne {self : Thread} (acts : action.actor = some self) : thread ≠ self := by
    rintro rfl
    exact inactive acts
  cases action with
  | lock | interrupt =>
    obtain ⟨-, rfl⟩ := of_guard ran
    exact (refl state thread).moveTo (ne rfl) _
  | unlock self monitor =>
    obtain ⟨⟨-, owner⟩, rfl⟩ := of_guard ran
    exact (setOwner locks (ne rfl) (locks.ownerMutex monitor self owner)
      (by simp)).moveTo (ne rfl) _
  | wait =>
    obtain ⟨-, rfl⟩ := of_guard ran
    refine moveTo ?_ (ne rfl) _
    exact { refl state thread with }
  | notify =>
    obtain ⟨⟨idle, owner⟩, rfl⟩ := of_guard ran
    exact waitSetSignalNext_undisturbed (owner_calm idle owner) thread
  | notifyAll =>
    obtain ⟨⟨idle, owner⟩, rfl⟩ := of_guard ran
    exact signalAll_undisturbed _ (owner_calm idle owner) thread
  | clear =>
    obtain ⟨-, rfl⟩ := of_guard ran
    refine { refl state thread with interrupted := fun interrupted => ?_ }
    simpa [ne rfl] using interrupted
  | proceed => exact proceed_undisturbed locks ran (ne rfl)
  | expire sleeper =>
    simp only [step] at ran
    split at ran
    · rename_i wait location
      obtain ⟨-, rfl⟩ := of_guard ran
      obtain rfl | same := eq_or_ne thread sleeper
      · refine { refl state thread with woken := ?_, awake := ?_ }
        · rw [location, moveTo_location_self]
          exact .woken _ _ rfl
        · exact fun _ _ _ _ mem => mem
      · exact (refl state thread).moveTo same _
    · cases ran
  | wake sleeper =>
    cases ran
    exact condSignal_undisturbed state sleeper thread

section
variable (inv : Invariant state)
  (others : ∀ thread, thread ≠ self → Undisturbed state next thread)
include inv others

namespace Invariant

omit [DecidableEq Thread] [DecidableEq Monitor] in
theorem outside (locks : Locks next) (pre : (state.location self).isWaiting = false)
    (post : (next.location self).isWaiting = false)
    (begins : ∀ target point, next.location self = .interrupting target point → point = .mark)
    (waitSet : next.waitSet = state.waitSet)
    (waitMonitor : next.waitMonitor = state.waitMonitor)
    (struck : next.struck = state.struck) : Invariant next := by
  obtain ⟨-, sets, interrupts⟩ := inv
  have notWaiting {wait point} : next.location self ≠ .waiting wait point := by
    intro waiting
    simp [waiting] at post
  have joined {location : Location Thread Monitor} (isOutside : location.isWaiting = false) :
      location.joined = none ∧ location.published = none := by
    cases location with
    | waiting => cases isOutside
    | _ => exact ⟨rfl, rfl⟩
  refine ⟨locks, sets.stay others waitSet ?_ ?_ ?_, interrupts.step others ?_ ?_ ?_⟩
  · rw [(joined pre).1, (joined post).1]
  · exact fun wait point waiting => absurd waiting notWaiting
  · rw [waitMonitor, sets.published, (joined pre).2, (joined post).2]
  · exact fun wait point waiting => absurd waiting notWaiting
  · intro target point moved wait waitPoint _
    rw [begins target point moved]
    trivial
  · intro thread _ isStruck
    exact .inl (struck ▸ isStruck)

theorem lock (ran : step state (.lock self monitor) = some next) : Invariant next := by
  obtain ⟨⟨idle, -⟩, rfl⟩ := of_guard ran
  have locks := inv.locks.stay others (fun _ => id) (fun _ => .rfl) (.inl (by simp))
    (.inl (by simp))
  exact inv.outside others locks (by simp [idle]) (by simp) (by simp) rfl rfl rfl

theorem unlock (ran : step state (.unlock self monitor) = some next) : Invariant next := by
  obtain ⟨⟨idle, owner⟩, rfl⟩ := of_guard ran
  have locks := inv.locks.setOwner others (inv.locks.ownerMutex _ self owner) rfl rfl (by simp)
    (by simp)
  exact inv.outside others locks (by simp [idle]) (by simp) (by simp) rfl rfl rfl

theorem wait (separate : Separate state (.wait self monitor timed interruptible))
    (ran : step state (.wait self monitor timed interruptible) = some next) :
    Invariant next := by
  obtain ⟨⟨idle, owner⟩, ran⟩ := of_guard ran
  have ⟨locks, sets, interrupts⟩ := inv
  generalize (interruptible && state.interrupted self) = interrupted at ran
  generalize isFirst : (if interrupted = true then WaitPoint.finish else .disown) = point at ran
  have first : point = .finish ∨ point = .disown := by
    rw [← isFirst]
    split
    · exact .inl rfl
    · exact .inr rfl
  cases ran
  refine ⟨locks.step others ?_ ?_ ?_, sets.stay others rfl ?_ ?_ ?_,
    interrupts.step others ?_ ?_ ?_⟩
  · exact fun found => locks.ownerMutex found self
  · intro found held
    rcases first with rfl | rfl <;> simp at held
  · intro found owned
    obtain rfl : monitor = found := by rcases first with rfl | rfl <;> simpa using owned
    exact owner
  · rcases first with rfl | rfl <;> simp [idle]
  · intro wait post moved
    obtain ⟨-, rfl⟩ : _ ∧ point = post := by simpa using moved
    rcases first with rfl | rfl <;> simp
  · have unpublished := sets.published self
    rw [idle] at unpublished
    rcases first with rfl | rfl <;>
      simpa [State.moveTo] using unpublished
  · intro wait post moved
    refine ⟨fun thread interruptPoint chasing => ?_, fun isStruck => ?_⟩
    · rw [separate.mark chasing]
      trivial
    · simp [State.moveTo] at isStruck
  · intro target interruptPoint moved
    simp at moved
  · intro thread ne isStruck
    exact .inl (by simpa [State.moveTo, ne] using isStruck)

theorem interrupt (ran : step state (.interrupt self target) = some next) : Invariant next := by
  obtain ⟨idle, rfl⟩ := of_guard ran
  have locks := inv.locks.stay others (fun _ => id) (fun _ => .rfl) (.inl (by simp))
    (.inl (by simp))
  refine inv.outside others locks (by simp [idle]) (by simp) ?_ rfl rfl rfl
  intro found point moved
  simp at moved
  exact moved.2.symm

theorem clear (ran : step state (.clear self) = some next) : Invariant next := by
  obtain ⟨idle, rfl⟩ := of_guard ran
  have locks := inv.locks.stay others (fun _ => id) (fun _ => .rfl) (.inr rfl) (.inr rfl)
  exact inv.outside others locks (by simp [idle]) (by simp [idle]) (by simp [idle]) rfl rfl rfl

theorem proceed (separate : Separate state (.proceed self))
    (ran : proceed state self = some next) : Invariant next := by
  unfold Interrupt.proceed at ran
  split at ran
  · cases ran
  · obtain ⟨free, rfl⟩ := of_guard ran
    exact inv.outside others (inv.locks.acquire others free rfl rfl (by simp) (by simp))
      (by simp [*]) (by simp) (by simp) rfl rfl rfl
  · rename_i location
    cases ran
    have mutex := (inv.locks.held self _ (by rw [location]; rfl)).1
    exact inv.outside others (inv.locks.setOwner others mutex rfl rfl (by simp) (by simp))
      (by simp [location]) (by simp) (by simp) rfl rfl rfl
  · rename_i location
    cases ran
    have notOwner := (inv.locks.held self _ (by rw [location]; rfl)).2
    exact inv.outside others (inv.locks.setMutex others notOwner rfl rfl (by simp) (by simp))
      (by simp [location]) (by simp) (by simp) rfl rfl rfl
  · exact inv.waitStep (by assumption) ran
  · cases ran
    exact inv.interruptStep separate (by assumption)

end Invariant

end

theorem Invariant.step (inv : Invariant state) (separate : Separate state action)
    (ran : step state action = some next) : Invariant next := by
  have inactive (thread : Thread) (away : action.actor ≠ some thread) :=
    step_undisturbed inv.locks ran away
  have others (self : Thread) (acts : action.actor = some self) (thread : Thread)
      (ne : thread ≠ self) : Undisturbed state next thread :=
    inactive thread (by simpa [acts] using ne.symm)
  cases action with
  | lock self => exact inv.lock (others self rfl) ran
  | unlock self => exact inv.unlock (others self rfl) ran
  | wait self => exact inv.wait (others self rfl) separate ran
  | notify self monitor =>
    obtain ⟨-, rfl⟩ := of_guard ran
    exact inv.of_undisturbed (inactive · nofun) (waitSetSignalNext_kept ..)
  | notifyAll self monitor =>
    obtain ⟨-, rfl⟩ := of_guard ran
    exact inv.of_undisturbed (inactive · nofun) (signalAll_kept ..)
  | interrupt self => exact inv.interrupt (others self rfl) ran
  | clear self => exact inv.clear (others self rfl) ran
  | proceed self => exact inv.proceed (others self rfl) separate ran
  | expire =>
    simp only [Interrupt.step] at ran
    split at ran
    · obtain ⟨-, rfl⟩ := of_guard ran
      exact inv.of_undisturbed (inactive · nofun) ⟨id, rfl⟩
    · cases ran
  | wake thread =>
    cases ran
    exact inv.of_undisturbed (inactive · nofun) (condSignal_kept ..)

theorem Invariant.of_reachable
    (reachable : (system Thread Monitor).ReachableWhile Separate state) : Invariant state := by
  refine TransitionSystem.ReachableWhile.invariant Invariant ?_ ?_ reachable
  · rintro start rfl
    exact Invariant.initial
  · intro current action next inv separate ran
    exact inv.step separate ran

end

end JamVM.Lock.Interrupt
