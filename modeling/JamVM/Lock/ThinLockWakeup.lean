import JamVM.Lock.ThinLockSafety

/-! # No lost wake-up on a thin lock

A contender sets the `FLC` bit and tries the lockword before it waits; the owner
of a thin lock writes the lockword and then reads the bit. So whenever a
contender is waiting unsignalled beside a free lockword, some thread is on its
way to signal a contender or to lock the object.
-/

namespace JamVM.Lock.ThinLock

open TransitionSystem.ReachableWhile Function TransitionSystem
open ThinLock.State (monitorLock_eq move setHeld setLock setMonitor setWaitSet signalNext
  startWait writeFlc)

/-- What a location means to the contenders for an object: the thread is about to
notify all of them, it waits itself or begins to, it looks for their monitor because it has
released the lock, or it has their monitor and will notify one of them or try
to lock the object. -/
inductive Attention (Obj : Type v)
  | none
  | notifying (obj : Obj) (mon : Nat)
  | asleep (obj : Obj) (mon : Nat)
  | parking (obj : Obj) (mon : Nat)
  | seeking (obj : Obj)
  | serving (obj : Obj) (mon : Nat)

def Location.attention {Obj : Type v} : Location Obj → Attention Obj
  | inflate obj mon _ .notifyAll => .notifying obj mon
  | blocked obj mon _ => .asleep obj mon
  | beginWait obj mon => .parking obj mon
  | testFlc obj | readShape obj .release | lookUp obj .release => .seeking obj
  | tryLock obj mon | retestFlc obj mon | recheckObj obj mon | notify obj mon
  | testWord obj mon | setFlc obj mon | swapWord obj mon => .serving obj mon
  | _ => .none

@[simp, grind =]
def Attention.isAsleep {Obj : Type v} : Attention Obj → Bool
  | asleep _ _ | parking _ _ => true
  | none | notifying _ _ | seeking _ | serving _ _ => false

@[simp, grind =]
def Attention.isNotifying {Obj : Type v} : Attention Obj → Bool
  | notifying _ _ => true
  | none | asleep _ _ | parking _ _ | seeking _ | serving _ _ => false

variable {Thread : Type u} {Obj : Type v}

/-- The thread sleeps in the contention wait of `objectLock` and nobody has
signalled it. -/
def Stuck (state : State Thread Obj) (thread : Thread) (obj : Obj) (mon : Nat) : Prop :=
  (state.location thread).attention = .asleep obj mon ∧ thread ∈ (state.monitor mon).waitSet

/-- The thread will signal a contender for the object or try to lock it with the
contender's monitor. -/
def Responsible (state : State Thread Obj) (thread : Thread) (obj : Obj) (mon : Nat) :
    Prop :=
  (state.location thread).attention = .seeking obj ∨
    (state.location thread).attention = .serving obj mon ∨
    (state.location thread).attention = .asleep obj mon ∧ thread ∉ (state.monitor mon).waitSet

def Parked (state : State Thread Obj) (thread : Thread) (obj : Obj) (mon : Nat) : Prop :=
  Stuck state thread obj mon ∨ (state.location thread).attention = .parking obj mon

structure Waits (state : State Thread Obj) : Prop where
  uninflated : ∀ thread obj mon, Stuck state thread obj mon → Uninflated state mon
  flc : ∀ thread obj mon, Stuck state thread obj mon → state.flc obj = true ∨
      ∃ other, (state.location other).attention = .notifying obj mon
  responsible : ∀ thread obj mon, Parked state thread obj mon →
    state.lock obj = .unlocked → ∃ other, Responsible state other obj mon

variable {state post : State Thread Obj} {self thread : Thread} {obj : Obj} {mon : Nat}

variable {location old new : Location Obj} {purpose : Purpose} {oldCount : Nat}

theorem Location.eq_blocked (asleep : location.attention = .asleep obj mon) :
    ∃ oldCount, location = .blocked obj mon oldCount := by
  unfold Location.attention at asleep
  grind

theorem Location.eq_inflate (notifying : location.attention = .notifying obj mon) :
    ∃ purpose, location = .inflate obj mon purpose .notifyAll := by
  unfold Location.attention at notifying
  grind

theorem Location.eq_beginWait (parking : location.attention = .parking obj mon) :
    location = .beginWait obj mon := by
  unfold Location.attention at parking
  grind

theorem State.setMonitor_waitSet {monitor : Monitor Thread Obj}
    (same : monitor.waitSet = (state.monitor mon).waitSet) (other : Nat) :
    ((state.setMonitor mon monitor).monitor other).waitSet = (state.monitor other).waitSet := by
  simp only [setMonitor, update_apply]
  grind

section
variable [DecidableEq Obj]

theorem Invariant.stuck_bound (inv : Invariant state)
    (stuck : Stuck state thread obj mon) : Bound state mon obj := by
  obtain ⟨oldCount, place⟩ := Location.eq_blocked stuck.1
  have located := inv.located thread
  rw [place] at located
  exact located.2.1

theorem Invariant.parked_bound (inv : Invariant state)
    (parked : Parked state thread obj mon) : Bound state mon obj :=
  parked.elim inv.stuck_bound fun place => (inv.point (Location.eq_beginWait place)).2.1

theorem Waits.parked_uninflated (waits : Waits state) (inv : Invariant state)
    (parked : Parked state thread obj mon) : Uninflated state mon :=
  parked.elim (waits.uninflated thread obj mon) fun place =>
    (inv.point (Location.eq_beginWait place)).2.2.1

theorem Waits.flc_set (waits : Waits state) (inv : Invariant state)
    (parked : Parked state thread obj mon) (free : state.lock obj = .unlocked) :
    state.flc obj = true := by
  rcases parked with stuck | place
  swap
  · exact (inv.point (Location.eq_beginWait place)).2.2.2
  rcases waits.flc thread obj mon stuck with set | ⟨other, notifying⟩
  · exact set
  · obtain ⟨purpose, place⟩ := Location.eq_inflate notifying
    obtain ⟨count, thin⟩ := (inv.inflating place).word.thin
    rw [free] at thin
    cases thin

theorem Invariant.contender_of_waitSet (inv : Invariant state)
    (bound : Bound state mon obj) (free : state.lock obj = .unlocked)
    (mem : thread ∈ (state.monitor mon).waitSet) :
    (state.location thread).attention = .asleep obj mon := by
  have asleep := inv.sleepers.asleep mon thread mem
  have located := inv.located thread
  cases place : state.location thread <;> rw [place] at asleep located <;>
    simp only [Location.asleep, reduceCtorEq, Option.some.injEq] at asleep
  · obtain ⟨_, named, _⟩ := located
    subst asleep
    rw [Option.some.inj (named.obj.symm.trans bound.obj)]
    rfl
  · obtain ⟨fat, _, named⟩ := located
    subst asleep
    rw [Option.some.inj (named.obj.symm.trans bound.obj), free] at fat
    cases fat

end

variable [DecidableEq Thread] [DecidableEq Obj]

variable (self) in
theorem Waits.step (waits : Waits state) (inv : Invariant state)
    (others : ∀ thread, thread ≠ self → post.location thread = state.location thread)
    (waitSet : ∀ mon thread, thread ∈ (post.monitor mon).waitSet → thread ≠ self →
      thread ∈ (state.monitor mon).waitSet)
    (asleep : ∀ obj mon, (post.location self).attention = .asleep obj mon →
      Uninflated post mon ∧ post.flc obj = true)
    (parked : ∀ obj mon, (post.location self).attention = .asleep obj mon ∨
      (post.location self).attention = .parking obj mon → post.lock obj = .unlocked →
        ∃ other, Responsible post other obj mon)
    (fat : ∀ obj mon, post.lock obj = .fat mon →
      state.lock obj = .fat mon ∨ (post.monitor mon).waitSet = [])
    (unlocked : ∀ obj, post.lock obj = .unlocked → state.lock obj = .unlocked ∨
      (∃ mon, state.lock obj = .fat mon) ∨ (post.location self).attention = .seeking obj)
    (flc : ∀ obj, state.flc obj = true → post.flc obj = true ∨
      ∀ thread mon, Stuck state thread obj mon →
        (post.location self).attention = .notifying obj mon)
    (notified : ∀ obj mon, (state.location self).attention = .notifying obj mon →
      (post.monitor mon).waitSet = [])
    (duty : ∀ thread obj mon, Parked state thread obj mon → Parked post thread obj mon →
      state.lock obj = .unlocked → post.lock obj = .unlocked →
      Responsible state self obj mon → ∃ other, Responsible post other obj mon) :
    Waits post := by
  have pre (thread : Thread) (obj : Obj) (mon : Nat) (ne : thread ≠ self)
      (stuck : Stuck post thread obj mon) : Stuck state thread obj mon := by
    obtain ⟨place, mem⟩ := stuck
    rw [others thread ne] at place
    exact ⟨place, waitSet mon thread mem ne⟩
  constructor
  · intro thread obj mon stuck
    by_cases same : thread = self
    · exact (asleep obj mon (same ▸ stuck.1)).1
    · have unused := waits.uninflated thread obj mon (pre thread obj mon same stuck)
      intro named word
      rcases fat named mon word with word | empty
      · exact unused named word
      · exact absurd stuck.2 (by simp [empty])
  · intro thread obj mon stuck
    by_cases same : thread = self
    · exact .inl (asleep obj mon (same ▸ stuck.1)).2
    · have stuckBefore := pre thread obj mon same stuck
      rcases waits.flc thread obj mon stuckBefore with set | ⟨other, notifying⟩
      · rcases flc obj set with set | cleared
        · exact .inl set
        · exact .inr ⟨self, cleared thread mon stuckBefore⟩
      · by_cases mover : other = self
        · subst mover
          exact absurd stuck.2 (by simp [notified obj mon notifying])
        · exact .inr ⟨other, (others other mover) ▸ notifying⟩
  · intro thread obj mon stuck free
    by_cases same : thread = self
    · exact parked obj mon (same ▸ stuck.imp_left And.left) free
    · have stuckBefore : Parked state thread obj mon :=
        stuck.imp (pre thread obj mon same) (by rw [others thread same]; exact id)
      rcases unlocked obj free with freeBefore | ⟨named, word⟩ | seeking
      · obtain ⟨other, responsible⟩ := waits.responsible thread obj mon stuckBefore freeBefore
        obtain rfl | mover := eq_or_ne other self
        · exact duty thread obj mon stuckBefore stuck freeBefore free responsible
        · refine ⟨other, ?_⟩
          unfold Responsible at responsible ⊢
          rw [others other mover]
          grind
      · have bound := inv.parked_bound stuckBefore
        have named := inv.cache.bound_eq (inv.inflated obj named word) bound
        exact absurd (named ▸ word) (waits.parked_uninflated inv stuckBefore obj)
      · exact ⟨self, .inl seeking⟩

section
variable (waits : Waits state) (inv : Invariant state) (place : state.location self = old)
include waits inv place

section
variable
  (moved : post.location = update state.location self new)
  (flc : post.flc = state.flc)
  (waitSet : ∀ mon, (post.monitor mon).waitSet = (state.monitor mon).waitSet)
  (fat : ∀ obj mon, post.lock obj = .fat mon → state.lock obj = .fat mon)
  (unlocked : ∀ obj, post.lock obj = .unlocked → state.lock obj = .unlocked)
include moved flc waitSet fat unlocked

theorem Waits.moves (quiet : old.attention.isNotifying = false)
    (awake : new.attention.isAsleep = false)
    (duty : ∀ thread obj mon, Parked state thread obj mon → state.lock obj = .unlocked →
      post.lock obj = .unlocked → Responsible state self obj mon →
      new.attention = .seeking obj ∨ new.attention = .serving obj mon) : Waits post := by
  have own : post.location self = new := by simp [moved]
  refine waits.step self inv ?_ ?_ ?_ ?_ ?_ ?_ ?_ ?_ ?_
  · exact fun thread ne => by simp [moved, ne]
  · exact fun mon thread mem _ => waitSet mon ▸ mem
  · exact fun obj mon asleep => by simp [← own, asleep] at awake
  · intro obj mon asleep
    rcases asleep with asleep | parking
    · simp [← own, asleep] at awake
    · simp [← own, parking] at awake
  · exact fun obj mon word => .inl (fat obj mon word)
  · exact fun obj word => .inl (unlocked obj word)
  · exact fun obj set => .inl (flc ▸ set)
  · exact fun obj mon notifies => by simp [← place, notifies] at quiet
  · intro thread obj mon stuck _ pre free responsible
    refine ⟨self, ?_⟩
    rcases duty thread obj mon stuck pre free responsible with seeking | serving
    · exact .inl (own ▸ seeking)
    · exact .inr (.inl (own ▸ serving))

theorem Waits.pass
    (idle : old.attention = .none) (awake : new.attention.isAsleep = false) :
    Waits post := by
  refine waits.moves inv place moved flc waitSet fat unlocked ?_ awake ?_
  · simp [idle]
  · simp [Responsible, place, idle]

end

theorem Waits.movesRead (quiet : old.attention.isNotifying = false)
    (awake : new.attention.isAsleep = false)
    (duty : ∀ thread obj mon, Parked state thread obj mon → state.lock obj = .unlocked →
      state.lock obj = .unlocked → Responsible state self obj mon →
      new.attention = .seeking obj ∨ new.attention = .serving obj mon) :
    Waits (state.move self new) :=
  waits.moves inv place rfl rfl (fun _ => rfl) (fun _ _ => id) (fun _ => id) quiet awake duty

variable (idle : old.attention = .none) (awake : new.attention.isAsleep = false)
include idle awake

theorem Waits.passRead : Waits (state.move self new) :=
  waits.pass inv place rfl rfl (fun _ => rfl) (fun _ _ => id) (fun _ => id) idle awake

theorem Waits.passMonitor (same : monitor.waitSet = (state.monitor mon).waitSet) :
    Waits ((state.setMonitor mon monitor).move self new) :=
  waits.pass inv place rfl rfl (State.setMonitor_waitSet same) (fun _ _ => id) (fun _ => id)
    idle awake

end

omit [DecidableEq Obj] in
theorem State.monitorUnlock_written (state : State Thread Obj) (mon : Nat)
    (self : Thread) : ∃ monitor,
    state.monitorUnlock mon self = state.setMonitor mon monitor ∧
      monitor.waitSet = (state.monitor mon).waitSet := by
  unfold State.monitorUnlock
  dsimp only
  split
  · split
    · exact ⟨_, rfl, rfl⟩
    · exact ⟨_, rfl, rfl⟩
  · exact ⟨state.monitor mon, by simp [setMonitor], rfl⟩

/-! ## Steps that concern the contenders -/

section
variable (waits : Waits state)
include waits

section
variable (inv : Invariant state)
include inv

namespace Waits

theorem writeUnlocked (place : state.location self = .writeUnlocked obj) :
    Waits (((state.setLock obj .unlocked).released self obj).move self (.testFlc obj)) := by
  apply waits.step self inv <;>
    simp only [move, State.released, setHeld, setLock,
      update_apply, Responsible, place, Location.attention] <;> grind

theorem deflate (place : state.location self = .deflate obj mon) :
    Waits (((state.setLock obj .unlocked).released self obj).move self (.retire obj mon)) := by
  have located := inv.point place
  have fat := located.1
  apply waits.step self inv <;>
    simp only [move, State.released, setHeld, setLock,
      update_apply, Responsible, place, Location.attention] <;> grind

theorem clearFlc (place : state.location self = .inflate obj mon purpose .clearFlc) :
    Waits ((state.writeFlc obj false).move self (.inflate obj mon purpose .notifyAll)) := by
  have bound := (inv.inflating place).bound
  have same (thread : Thread) (other : Nat) (stuck : Stuck state thread obj other) : other = mon :=
    inv.cache.bound_eq (inv.stuck_bound stuck) bound
  apply waits.step self inv <;>
    simp only [move, writeFlc, update_apply, Responsible, place, Location.attention] <;> grind

theorem notifyAll (place : state.location self = .inflate obj mon purpose .notifyAll) :
    Waits ((state.setWaitSet mon []).move self (.inflate obj mon purpose .writeWord)) := by
  apply waits.step self inv <;>
    simp only [move, setWaitSet, setMonitor, update_apply,
      Responsible, place, Location.attention] <;> grind

theorem inflates (place : state.location self = .inflate obj mon purpose .writeWord)
    (location : post.location = update state.location self new)
    (lock : post.lock = update state.lock obj (.fat mon))
    (flc : post.flc = state.flc)
    (waitSet : ∀ mon, (post.monitor mon).waitSet = (state.monitor mon).waitSet)
    (awake : new.attention.isAsleep = false) : Waits post := by
  have empty : (state.monitor mon).waitSet = [] := by
    have located := inv.point place
    exact located.2.2 rfl
  have idle : (state.location self).attention = .none := by
    rw [place]
    rfl
  apply waits.step self inv <;>
    simp only [location, lock, flc, waitSet, update_apply, Responsible, idle] <;>
    grind

theorem setFlc (place : state.location self = .setFlc obj mon) :
    Waits ((state.writeFlc obj true).move self (.swapWord obj mon)) := by
  apply waits.step self inv <;>
    simp only [move, writeFlc, update_apply, Responsible, place, Location.attention] <;> grind

theorem beginWait (place : state.location self = .swapWord obj mon)
    (taken : state.lock obj ≠ .unlocked) : Waits (state.move self (.beginWait obj mon)) := by
  apply waits.step self inv <;>
    simp only [move, update_apply, Responsible, place, Location.attention] <;> grind

theorem startBlock (place : state.location self = .beginWait obj mon) :
    Waits ((state.startWait mon self).move self (.blocked obj mon oldCount)) := by
  obtain ⟨_, _, uninflated, set⟩ := inv.point place
  have before := waits.responsible self obj mon (.inr (by rw [place]; rfl))
  apply waits.step self inv
  case parked =>
    intro named found asleep free
    obtain ⟨rfl, rfl⟩ : obj = named ∧ mon = found := by
      simpa [move, Location.attention] using asleep
    obtain ⟨other, responsible⟩ := before free
    have ne : other ≠ self := by
      rintro rfl
      simp [Responsible, place, Location.attention] at responsible
    exact ⟨other, by simpa [Responsible, move, startWait, setMonitor, ne] using responsible⟩
  all_goals
    clear before
    simp only [move, startWait, setMonitor, update_apply,
      Responsible, place, Location.attention, Uninflated] at *
    grind

theorem startSleep (place : state.location self = .sleep obj mon) :
    Waits ((state.startWait mon self).move self (.waiting obj mon oldCount)) := by
  apply waits.step self inv <;>
    simp only [move, startWait, setMonitor, update_apply,
      Responsible, place, Location.attention] <;> grind

theorem endWait (place : state.location self = old)
    (sub : waitSet.Sublist (state.monitor mon).waitSet)
    (role : (∃ obj, old.attention = .asleep obj mon ∧ new.attention = .serving obj mon) ∨
      old.attention = .none ∧ new.attention = .none) :
    Waits ((state.endWait mon self oldCount waitSet).move self new) := by
  apply waits.step self inv <;>
    simp only [move, State.endWait, setMonitor, update_apply, Responsible, place] <;> grind

end Waits

end

end

theorem Waits.notify (waits : Waits state) (inv : Invariant state)
    (place : state.location self = .notify obj mon) :
    Waits ((state.setWaitSet mon (state.signalNext mon)).move self (.unlockNotifier obj mon)) := by
  refine waits.step self inv ?_ ?_ ?_ ?_ ?_ ?_ ?_ ?_ ?_
  case refine_9 =>
    intro thread named found parked _ free _ responsible
    obtain ⟨rfl, rfl⟩ : obj = named ∧ mon = found := by
      simpa [Responsible, place, Location.attention] using responsible
    have distinct := inv.sleepers.nodup mon
    cases waiters : (state.monitor mon).waitSet with
    | nil =>
      rcases parked with stuck | parking
      · exact absurd stuck.2 (by simp [waiters])
      · -- a thread that begins to wait has the mutex itself
        have parking := Location.eq_beginWait parking
        have same := inv.sole (inv.owners.caller self mon (by rw [place]; rfl))
          (inv.parked_bound (.inr (by rw [parking]; rfl))) (by rw [parking]; rfl)
          (inv.point parking).2.1
        rw [same, place] at parking
        cases parking
    | cons head =>
      have contender := inv.contender_of_waitSet (inv.parked_bound parked) free
        (waiters ▸ List.mem_cons_self)
      have other : head ≠ self := by
        rintro rfl
        rw [place] at contender
        cases contender
      rw [waiters, List.nodup_cons] at distinct
      refine ⟨head, .inr (.inr ⟨?_, ?_⟩)⟩
      · simpa [move, setWaitSet, setMonitor, other] using contender
      · simpa [move, setWaitSet, setMonitor, signalNext, waiters] using distinct.1
  all_goals
    simp only [move, setWaitSet, signalNext, setMonitor, update_apply, place, Location.attention]
    grind [List.mem_of_mem_tail]

/-! ## Runs -/

theorem Waits.proceeds (waits : Waits state) (inv : Invariant state)
    (ran : proceed state self order = some post) : Waits post := by
  unfold proceed at ran
  cases place : state.location self
  all_goals simp only [place] at ran
  case idle => cases ran
  case swapFree =>
    split at ran <;> cases ran
    · refine waits.pass inv place rfl rfl (fun _ => rfl) ?_ ?_ rfl rfl <;>
        simp only [move, setLock, State.locked, setHeld, update_apply] <;> grind
    · exact waits.passRead inv place rfl rfl
  case readWord | readOwn | readWaiting =>
    (repeat' split at ran) <;> cases ran <;>
      exact waits.passRead inv place rfl rfl
  case bump | drop =>
    cases ran
    refine waits.pass inv place rfl rfl (fun _ => rfl) ?_ ?_ rfl rfl <;>
      simp only [move, setLock, State.locked, State.released, setHeld, update_apply] <;> grind
  case readShape purpose =>
    split at ran <;> cases ran
    · rename_i found word
      refine waits.movesRead inv place ?_ ?_ ?_ <;>
        cases purpose <;> simp [Location.attention, Purpose.next, Responsible, place]
      grind
    · refine waits.movesRead inv place ?_ ?_ ?_ <;>
        cases purpose <;> simp [Location.attention, Responsible, place]
  case lookUp named purpose =>
    obtain ⟨⟨middle, found⟩, looked, rfl⟩ := Option.map_eq_some_iff.mp ran
    have res := inv.cache.findHashEntry looked
    have location : (middle.move self (purpose.next named found)).location =
        update state.location self (purpose.next named found) := by
      simp only [move, res.location]
    have lock : (middle.move self (purpose.next named found)).lock = state.lock := res.lock
    refine waits.moves inv place location res.flc res.waitSet
      (fun _ _ => lock ▸ id) (fun _ => lock ▸ id) ?_ ?_ fun thread obj mon stuck _ _ => ?_
    · cases purpose <;> rfl
    · cases purpose <;> rfl
    · have bound := res.kept mon obj (inv.parked_bound stuck)
      have same (equal : named = obj) : found = mon := by
        subst equal
        exact res.sound.bound_eq res.bound bound
      cases purpose <;>
        simp [Location.attention, Purpose.next, Responsible, place]
      grind
  case acquire | block =>
    obtain ⟨middle, locked, rfl⟩ := Option.map_eq_some_iff.mp ran
    obtain ⟨count, rfl, _⟩ := monitorLock_eq locked
    exact waits.passMonitor inv place rfl rfl (by rfl)
  case inflate purpose stage =>
    cases stage with
    | clearFlc =>
      cases ran
      exact waits.clearFlc inv place
    | notifyAll =>
      have owner := (inv.inflating place).owner
      simp only [owner, if_true] at ran
      cases ran
      exact waits.notifyAll inv place
    | writeWord =>
      dsimp only at ran
      cases ran
      cases purpose with
      | overflow | wait =>
        exact waits.inflates inv place rfl rfl rfl
          (State.setMonitor_waitSet (by rfl)) rfl
      | contention | release =>
        exact waits.inflates inv place rfl rfl rfl (fun _ => rfl) rfl
  case readEntering | checkObj | inspect | inspectEntering | inspectWaits =>
    split at ran <;> cases ran <;> exact waits.passRead inv place rfl rfl
  case enter | leave | entered | retire =>
    split at ran <;> cases ran
    · exact waits.passMonitor inv place rfl rfl (by rfl)
    · exact waits.passRead inv place rfl rfl
  case readLeaving | readEntered =>
    cases ran
    exact waits.passRead inv place rfl rfl
  case testWord named found =>
    split at ran <;> cases ran
    · rename_i other fat
      refine waits.moves inv place rfl rfl (fun _ => rfl) (fun _ _ => id)
        (fun _ => id) rfl rfl
        fun thread obj mon stuck free _ responsible => ?_
      obtain ⟨rfl, rfl⟩ : named = obj ∧ found = mon := by
        simpa [Responsible, place, Location.attention] using responsible
      rw [free] at fat
      cases fat
    · refine waits.movesRead inv place rfl rfl ?_
      simp [Responsible, place, Location.attention]
  case setFlc =>
    cases ran
    exact waits.setFlc inv place
  case swapWord found =>
    split at ran <;> cases ran
    · refine waits.moves inv place rfl rfl (fun _ => rfl) ?_ ?_ rfl
        rfl ?_ <;>
        simp only [move, setLock, update_apply, Responsible, place, Location.attention] <;> grind
    · rename_i taken
      exact waits.beginWait inv place taken
  case beginWait found =>
    have owner := inv.owners.caller self found (by rw [place]; rfl)
    simp only [owner, if_true] at ran
    cases ran
    exact waits.startBlock inv place
  case blocked obj _ _ =>
    split at ran <;> cases ran
    exact waits.endWait inv place (.refl _) (.inl ⟨obj, rfl, rfl⟩)
  case writeUnlocked =>
    cases ran
    exact waits.writeUnlocked inv place
  case testFlc named =>
    split at ran <;> cases ran <;> rename_i bit <;>
      refine waits.movesRead inv place rfl rfl
        fun thread obj mon stuck free _ responsible => ?_
    all_goals
      obtain rfl : named = obj := by
        simpa [Responsible, place, Location.attention] using responsible
    · exact .inl rfl
    · exact absurd (waits.flc_set inv stuck free) bit
  case tryLock =>
    split at ran <;> cases ran
    · rename_i middle locked
      obtain ⟨count, rfl, _⟩ := monitorLock_eq locked
      refine waits.moves inv place rfl rfl (State.setMonitor_waitSet (by rfl))
        (fun _ _ => id) (fun _ => id) rfl rfl ?_
      simp [Responsible, place, Location.attention]
    · refine waits.movesRead inv place rfl rfl ?_
      simp +contextual [Responsible, place, Location.attention]
  case retestFlc named found | recheckObj named found =>
    split at ran <;> cases ran <;>
      refine waits.movesRead inv place rfl rfl
        fun thread obj mon stuck free _ responsible => ?_
    all_goals
      obtain ⟨rfl, rfl⟩ : named = obj ∧ found = mon := by
        simpa [Responsible, place, Location.attention] using responsible
    · exact .inr rfl
    · -- The bit is still set and the monitor is still the object's.
      have bit := waits.flc_set inv stuck free
      have bound := (inv.parked_bound stuck).obj
      contradiction
  case notify mon =>
    have owner := inv.owners.caller self mon (by rw [place]; rfl)
    simp only [owner, if_true] at ran
    cases ran
    exact waits.notify inv place
  case unlockNotifier mon | unlockDeflated mon | unlockFat mon =>
    obtain ⟨monitor, written, same⟩ := State.monitorUnlock_written state mon self
    simp only [written] at ran
    cases ran
    exact waits.pass inv place rfl rfl (State.setMonitor_waitSet same)
      (fun _ _ => id) (fun _ => id) rfl rfl
  case deflate =>
    cases ran
    exact waits.deflate inv place
  case sleep =>
    split at ran <;> cases ran
    · exact waits.startSleep inv place
    · exact waits.passRead inv place rfl rfl
  case waiting =>
    split at ran <;> cases ran
    exact waits.endWait inv place (.refl _) (.inr ⟨rfl, rfl⟩)

theorem Waits.givesUp (waits : Waits state) (inv : Invariant state) {forward : Bool}
    (ran : giveUp state self forward = some post) : Waits post := by
  have sub (mon : Nat) := leftWaitSet_sublist (state.monitor mon).waitSet self forward
  unfold giveUp at ran
  split at ran
  · rename_i obj mon oldCount place
    obtain ⟨-, rfl⟩ := of_guard ran
    exact waits.endWait inv place (sub mon) (.inl ⟨obj, rfl, rfl⟩)
  · rename_i place
    cases ran
    exact waits.passRead inv place rfl rfl
  · rename_i obj mon oldCount place
    obtain ⟨-, rfl⟩ := of_guard ran
    exact waits.endWait inv place (sub mon) (.inr ⟨rfl, rfl⟩)
  · cases ran

theorem Waits.called (waits : Waits state) (inv : Invariant state)
    (ran : call state self location = some post)
    (awake : location.attention.isAsleep = false) : Waits post := by
  obtain ⟨place, rfl⟩ := of_guard ran
  exact waits.passRead inv place rfl awake

theorem waits_reachable (reachable : (system Thread Obj).ReachableWhile Guarded state) :
    Invariant state ∧ Waits state := by
  refine reachable.invariant (fun state => Invariant state ∧ Waits state) ?_ ?_
  · rintro state rfl
    exact ⟨invariant_start, by constructor <;> simp [Parked, Stuck, start, Location.attention]⟩
  · rintro current action next ⟨inv, waits⟩ guarded ran
    refine ⟨inv.step guarded ran, ?_⟩
    cases action with
    | lock | unlock | wait => exact waits.called inv ran rfl
    | proceed => exact waits.proceeds inv ran
    | giveUp => exact waits.givesUp inv ran

def Location.call {Obj : Type v} : Location Obj → Option Obj
  | idle | readWaiting _ | sleep _ _ | waiting _ _ _ | readShape _ (.wait _)
  | lookUp _ (.wait _) | acquire _ _ (.wait _) | inflate _ _ (.wait _) _ => none
  | swapFree obj | readWord obj | bump obj _ | readShape obj _ | lookUp obj _
  | acquire obj _ _ | inflate obj _ _ _ | readEntering obj _ | enter obj _ _
  | checkObj obj _ | readLeaving obj _ | leave obj _ _ | block obj _ | readEntered obj _
  | entered obj _ _ | testWord obj _ | setFlc obj _ | swapWord obj _ | beginWait obj _
  | blocked obj _ _ | readOwn obj | writeUnlocked obj | drop obj _ | testFlc obj | tryLock obj _
  | retestFlc obj _ | recheckObj obj _ | notify obj _ | unlockNotifier obj _
  | inspect obj _ | inspectEntering obj _ | inspectWaits obj _ | deflate obj _ | retire obj _
  | unlockDeflated obj _ | unlockFat obj _ => some obj

omit [DecidableEq Thread] [DecidableEq Obj] in
theorem Responsible.call (responsible : Responsible state thread obj mon) :
    (state.location thread).call = some obj := by
  unfold Responsible at responsible
  cases place : state.location thread <;> rw [place] at responsible
  case readShape purpose | lookUp purpose =>
    cases purpose <;> simp_all [Location.attention, Location.call]
  case inflate stage => cases stage <;> simp [Location.attention] at responsible
  all_goals simp_all [Location.attention, Location.call]

/-- While a contender waits unsignalled, or begins to wait, beside a free lockword, the `FLC` bit is
set and another thread in `objectLock` or `objectUnlock` for the object is not
waiting like it, but on its way to signal a contender or to lock the object. So
when no such thread is left, every contender's wait has been signalled. -/
theorem objectLock_wakeup (reachable : (system Thread Obj).ReachableWhile Guarded state)
    (parked : Parked state thread obj mon) (free : state.lock obj = .unlocked) :
    state.flc obj = true ∧
      ∃ other, (state.location other).call = some obj ∧ Responsible state other obj mon ∧
        ∀ mon, ¬ Parked state other obj mon := by
  obtain ⟨inv, waits⟩ := waits_reachable reachable
  obtain ⟨other, responsible⟩ := waits.responsible thread obj mon parked free
  refine ⟨waits.flc_set inv parked free, other, responsible.call, responsible, ?_⟩
  rintro named parked
  simp only [Parked, Stuck] at parked
  rcases responsible with seeking | serving | ⟨asleep, signalled⟩
  · simp [seeking] at parked
  · simp [serving] at parked
  · obtain ⟨⟨-, rfl⟩, waiting⟩ : (obj = obj ∧ mon = named) ∧ _ := by simpa [asleep] using parked
    exact signalled waiting

/-- Thread 1 has found the lock of object 0 taken and waits; thread 0 releases
it and has not read the bit yet. -/
theorem objectLock_wakeup_release : ∃ state : State (Fin 30) Nat,
      (system (Fin 30) Nat).ReachableWhile Guarded state ∧ Stuck state 1 0 0 ∧
        state.lock 0 = .unlocked ∧ state.flc 0 = true := by
  have run : ((system (Fin 30) Nat).runWhile Guarded (start _ _)
      (.lock 0 0 :: steps 0 1 ++ .lock 1 0 :: steps 1 14 ++ .unlock 0 0 :: steps 0 2)).any
        (fun state => state.location 1 = .blocked 0 0 0 ∧ 1 ∈ (state.monitor 0).waitSet ∧
          state.lock 0 = .unlocked) = true := by
    decide +kernel
  obtain ⟨state, reachable, place, waiting, free⟩ := of_any _ _ (.initial rfl) run
  have stuck : Stuck state 1 0 0 := ⟨by rw [place]; rfl, waiting⟩
  exact ⟨state, reachable, stuck, free, (objectLock_wakeup reachable (.inl stuck) free).1⟩

local instance (priority := 2000) neZero_thirty : NeZero 30 := ⟨by decide⟩

def unlockFat (count : Nat) : List (Action (Fin 30) Nat) :=
  (List.replicate count (.unlock 0 0 :: steps 0 3)).flatten

/-- Thread 4 waits on its own monitor before thread 0 inflates object 0 with the
recycled one, notifies nobody and clears the bit. When thread 0 has unlocked the
object as often as it has locked it, the lockword is free, the bit is clear and
thread 4 waits alone. -/
theorem objectLock_lost_wakeup : ∃ state : State (Fin 30) Nat,
      (system (Fin 30) Nat).ReachableWhile OwnUnlock state ∧ Stuck state 4 0 25 ∧
        state.lock 0 = .unlocked ∧ state.flc 0 = false ∧
        ∀ thread, thread ≠ 4 → (state.location thread).call ≠ some 0 := by
  have run : ((system (Fin 30) Nat).runWhile OwnUnlock (start _ _)
      (inflateAndDeflate ++ fillCache ++ overflow ++ recycle ++ steps 4 10 ++ steps 0 4 ++
        unlockFat (2 ^ countSize) ++ .unlock 0 0 :: steps 0 7)).any
        (fun state => state.location 4 = .blocked 0 25 0 ∧
          4 ∈ (state.monitor 25).waitSet ∧ state.lock 0 = .unlocked ∧ state.flc 0 = false ∧
          ∀ thread, thread ≠ 4 → (state.location thread).call ≠ some 0) = true := by
    decide +kernel
  obtain ⟨state, reachable, place, waiting, rest⟩ := of_any _ _ (.initial rfl) run
  exact ⟨state, reachable, ⟨by rw [place]; rfl, waiting⟩, rest⟩

end JamVM.Lock.ThinLock
