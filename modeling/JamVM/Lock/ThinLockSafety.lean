import JamVM.Lock.ThinLockMove
import Mathlib.Data.Fintype.Basic

/-! # Safety of the object locks -/

namespace JamVM.Lock.ThinLock

open List Option
open ThinLock.State (endWait monitorLock_eq move released setEntering setLock)
open TransitionSystem.ReachableWhile
open TransitionSystem

attribute [local simp] State.setMonitor Location.waitsOn

variable {Thread : Type u} {Obj : Type v} [DecidableEq Thread] [DecidableEq Obj]
  {state post : State Thread Obj} {self : Thread} {obj : Obj} {mon : Nat}

section
variable (state : State Thread Obj)

def OwnUnlock : Action Thread Obj → Prop
  | .unlock self obj => 0 < state.held self obj
  | _ => True

def Location.retiring : Location Obj → Option Nat
  | retire _ mon => some mon
  | _ => none

/-- A monitor is marked unused only while no thread is on its way from
`findMonitor` to locking it in order to inflate its own thin lock. -/
def QuietRetire : Action Thread Obj → Prop
  | .proceed self _ => ∀ mon ∈ (state.location self).retiring,
      (state.monitor mon).entering = some 0 → ∀ thread, (state.location thread).acquiring ≠ some mon
  | _ => True

def Location.locking : Location Obj → Option Nat
  | acquire _ mon _ | block _ mon | tryLock _ mon => some mon
  | _ => none

def Shallow : Action Thread Obj → Prop
  | .proceed self _ => ∀ mon ∈ (state.location self).locking,
      (state.monitor mon).owner = some self → (state.monitor mon).count + 1 < 2 ^ 31
  | _ => True

def Guarded (action : Action Thread Obj) : Prop :=
  OwnUnlock state action ∧ QuietRetire state action ∧ Shallow state action

instance (action : Action Thread Obj) : Decidable (Shallow state action) :=
  match action with
  | .proceed self _ => inferInstanceAs (Decidable (∀ mon ∈ (state.location self).locking,
      (state.monitor mon).owner = some self → (state.monitor mon).count + 1 < 2 ^ 31))
  | .lock _ _ | .unlock _ _ | .wait _ _ | .giveUp _ _ => .isTrue trivial

instance (action : Action Thread Obj) : Decidable (OwnUnlock state action) :=
  match action with
  | .unlock self obj => inferInstanceAs (Decidable (0 < state.held self obj))
  | .lock _ _ | .wait _ _ | .proceed _ _ | .giveUp _ _ => .isTrue trivial

end

instance [Fintype Thread] (state : State Thread Obj) (action : Action Thread Obj) :
    Decidable (QuietRetire state action) :=
  match action with
  | .proceed self _ => inferInstanceAs (Decidable (∀ mon ∈ (state.location self).retiring,
      (state.monitor mon).entering = some 0 →
        ∀ thread, (state.location thread).acquiring ≠ some mon))
  | .lock _ _ | .unlock _ _ | .wait _ _ | .giveUp _ _ => .isTrue trivial

instance [Fintype Thread] (state : State Thread Obj) (action : Action Thread Obj) :
    Decidable (Guarded state action) :=
  inferInstanceAs (Decidable (_ ∧ _ ∧ _))

/-! ## The invariant of all runs -/

omit [DecidableEq Thread] in
theorem invariant_start : Invariant (start Thread Obj) := by
  constructor
  · constructor <;> simp [start]
  · exact fun mon => Census.empty fun _ => by simp [start, Location.inside]
  · refine ⟨fun mon => Census.empty fun _ => by simp [start, Location.asleep], ?_, ?_⟩ <;>
      simp [start]
  · constructor <;> simp [start, Location.owns]
  · constructor <;> simp [start, State.depth]
  · simp [start]
  · intro thread
    trivial

omit [DecidableEq Thread] in
theorem Invariant.contends (inv : Invariant state) (place : state.location self = .readWord obj)
    (foreign : ∀ count, state.lock obj ≠ .thin self count) : Contends state self obj := by
  intro holds
  have depth : state.depth self obj = state.held self obj := by simp [State.depth, place]
  cases word : state.lock obj with
  | unlocked =>
    have free := inv.words.unlocked obj self word
    omega
  | thin owner count =>
    have ne : self ≠ owner := by
      rintro rfl
      exact foreign count word
    have others := inv.words.others obj owner count self word ne
    omega
  | fat mon => exact ⟨mon, rfl⟩

variable {purpose : Purpose}

section
variable (inv : Invariant state)
include inv

namespace Invariant

theorem foundNext (place : state.location self = old)
    (role : old.role = (none, none, none, none, none))
    (seeks : Seeks state self obj purpose) (bound : Bound state mon obj) :
    Invariant (state.move self (purpose.next obj mon)) := by
  cases purpose with
  | overflow | wait => exact inv.relocate place role.symm ⟨seeks, by simp, bound⟩
  | contention => exact inv.relocate place role.symm seeks
  | release => exact inv.relocate place role.symm trivial

omit [DecidableEq Thread] in
theorem sole (owner : (state.monitor mon).owner = some self) (bound : Bound state mon obj)
    (owns : (state.location thread).owns = some other) (same : Bound state other obj) :
    thread = self := by
  have owned := inv.owners.caller thread other owns
  rw [inv.cache.bound_eq same bound] at owned
  exact some.inj (owned.symm.trans owner)

theorem clearFlc (place : state.location self = .inflate obj mon purpose .clearFlc) :
    Invariant ((state.writeFlc obj false).move self (.inflate obj mon purpose .notifyAll)) := by
  obtain ⟨word, bound, owner, _, _⟩ := inv.inflating place
  have unread (thread : Thread) (other : Nat)
      (relies : state.location thread = .swapWord obj other ∨
        state.location thread = .beginWait obj other) : false = true := by
    have located := inv.located thread
    rcases relies with relies | relies
    all_goals
      rw [relies] at located
      have same := inv.sole owner bound (by rw [relies]; rfl) located.2.1
      rw [same, place] at relies
      cases relies
  have located : Located (state.writeFlc obj false) self (state.location self) :=
    (inv.located self).writeFlc (unread self)
  rw [place] at located
  refine (inv.writeFlc unread).relocate place ?_ ⟨located.1, located.2.1, by rintro ⟨⟩⟩
  cases purpose <;> rfl

theorem notifyAll (place : state.location self = .inflate obj mon purpose .notifyAll) :
    Invariant ((state.setWaitSet mon []).move self (.inflate obj mon purpose .writeWord)) := by
  obtain ⟨word, bound, owner, _, _⟩ := inv.inflating place
  have bound : Bound (state.setWaitSet mon []) mon obj := by
    simpa [bound_iff, State.setWaitSet] using bound
  have word : OwnWord (state.setWaitSet mon []) self obj purpose := word
  have kept : Invariant (state.setWaitSet mon []) := by
    refine inv.setWaitSet owner ?_ (nil_sublist _)
    rw [place]
    exact ⟨word, bound, by rintro ⟨⟩⟩
  refine kept.relocate place ?_ ⟨word, bound, fun _ => ?_⟩
  · cases purpose <;> rfl
  · simp [State.setWaitSet]

theorem notifyNext (place : state.location self = .notify obj mon) :
    Invariant ((state.setWaitSet mon (state.signalNext mon)).move self
      (.unlockNotifier obj mon)) := by
  have owner := inv.owners.caller self mon (by rw [place]; rfl)
  have kept : Invariant (state.setWaitSet mon (state.signalNext mon)) :=
    inv.setWaitSet owner (by rw [place]; trivial) (tail_sublist _)
  exact kept.relocate place rfl trivial

theorem testedWord (place : state.location self = .testWord obj mon)
    (word : ∀ mon, state.lock obj ≠ .fat mon) :
    Invariant (state.move self (.setFlc obj mon)) := by
  have located := inv.point place
  exact inv.relocate place rfl ⟨located.1, located.2, inv.uninflated located.2 (word mon)⟩

theorem setsFlc (place : state.location self = .setFlc obj mon) :
    Invariant ((state.writeFlc obj true).move self (.swapWord obj mon)) := by
  have located : Located (state.writeFlc obj true) self (state.location self) :=
    (inv.located self).writeFlc (by simp)
  rw [place] at located
  refine (inv.writeFlc (by simp)).relocate place rfl
    ⟨located.1, located.2.1, located.2.2, by simp [State.writeFlc]⟩

theorem retires (place : state.location self = .retire obj mon)
    (unused : (state.monitor mon).entering = some 0)
    (quiet : ∀ thread, (state.location thread).acquiring ≠ some mon) :
    Invariant ((state.setEntering mon none).move self (.unlockDeflated obj mon)) := by
  have owner := inv.owners.caller self mon (by rw [place]; rfl)
  have located := inv.point place
  have kept := inv.retire owner unused located.1 located.2 quiet (by
    rw [place]
    refine ⟨?_, located.2⟩
    simpa [setEntering] using located.1)
  exact kept.relocate place rfl trivial

theorem inspects (place : state.location self = .inspect obj mon)
    (count : (state.monitor mon).count = 0) :
    Invariant (state.move self (.inspectEntering obj mon)) := by
  have located := inv.point place
  have depth : 0 < state.depth self obj := by simpa [State.depth, place] using located.2
  have owner := inv.owners.holder self obj mon located.1 depth
  exact inv.relocate place rfl ⟨located.1, located.2, owner, count⟩

theorem proceeds (quiet : QuietRetire state (.proceed self order))
    (shallow : Shallow state (.proceed self order)) (ran : proceed state self order = some post) :
    Invariant post := by
  have located := inv.located self
  simp only [Shallow] at shallow
  unfold proceed at ran
  cases place : state.location self
  all_goals simp only [place] at ran located shallow
  case idle => cases ran
  case swapFree =>
    split at ran
    case isTrue unlocked => exact some.inj ran ▸ inv.take place unlocked
    case isFalse => exact some.inj ran ▸ inv.relocate place rfl trivial
  case readWord obj =>
    split at ran
    case h_1 owner count word =>
      split at ran
      case isTrue own =>
        subst own
        have bounded := (inv.words.thin obj owner count word).1
        split at ran <;> cases some.inj ran
        · rename_i less
          exact inv.relocate place rfl ⟨word, less⟩
        · have same : count = maxCount := by omega
          subst same
          exact inv.relocate place rfl word
      case isFalse =>
        cases ran
        exact inv.relocate place rfl (inv.contends place (by grind))
    case h_2 =>
      cases ran
      exact inv.relocate place rfl (inv.contends place (by grind))
  case bump =>
    cases ran
    obtain ⟨word, less⟩ := located
    have held := inv.held_thin word (by simp [place]) (by simp [place])
    have kept := inv.recount (.inl place) word less
    simpa only [State.locked, setLock, held] using kept
  case readShape obj _ =>
    split at ran <;> cases ran
    · rename_i mon word
      exact inv.foundNext place rfl located (inv.inflated obj mon word)
    · exact inv.relocate place rfl located
  case lookUp obj purpose =>
    obtain ⟨⟨middle, mon⟩, looked, rfl⟩ := Option.map_eq_some_iff.mp ran
    have found := inv.cache.findHashEntry looked
    exact (inv.found found).foundNext (found.location ▸ place) rfl
      ((found.undisturbed self).seeks obj purpose located) found.bound
  case acquire =>
    obtain ⟨middle, locked, rfl⟩ := Option.map_eq_some_iff.mp ran
    obtain ⟨count, rfl, _⟩ := monitorLock_eq locked
    refine inv.acquire place locked (shallow _ rfl) rfl rfl rfl rfl rfl
      ⟨located.1, ?_, by rintro ⟨⟩⟩
    simpa [bound_iff] using located.2.2
  case inflate purpose stage =>
    cases stage with
    | clearFlc =>
      cases ran
      exact inv.clearFlc place
    | notifyAll =>
      have owner := (inv.inflating place).owner
      simp only [owner, if_true] at ran
      cases ran
      exact inv.notifyAll place
    | writeWord =>
      dsimp only at ran located
      cases ran
      cases purpose with
      | overflow => exact inv.inflateOverflow place
      | wait => exact inv.inflateWait place
      | contention => exact inv.inflateContended place
      | release => exact located.1.elim
  case readEntering => split at ran <;> cases ran <;> exact inv.relocate place rfl located
  case enter =>
    split at ran <;> cases ran
    · rename_i current
      exact inv.enter place current
    · exact inv.relocate place rfl located
  case checkObj mon =>
    split at ran <;> cases ran
    · rename_i named
      have inside : (state.location self).inside = some mon := by rw [place]; rfl
      have entered := (inv.entrants mon).pos inside
      have used : (state.monitor mon).entering ≠ none := by
        intro none
        simp [none] at entered
      exact inv.relocate place rfl ⟨located, inv.cache.used mon used, named, used⟩
    · exact inv.relocate place rfl located
  case readLeaving | readEntered =>
    cases ran
    exact inv.relocate place rfl located
  case leave =>
    split at ran <;> cases ran
    · rename_i current
      exact inv.leave place current rfl rfl rfl rfl rfl located
    · exact inv.relocate place rfl located
  case block =>
    obtain ⟨middle, locked, rfl⟩ := Option.map_eq_some_iff.mp ran
    obtain ⟨count, rfl, _⟩ := monitorLock_eq locked
    refine inv.acquire place locked (shallow _ rfl) rfl rfl rfl rfl rfl ⟨located.1, ?_⟩
    simpa [bound_iff] using located.2
  case entered =>
    split at ran <;> cases ran
    · rename_i current
      refine inv.leave place current rfl rfl rfl rfl rfl ⟨located.1, ?_⟩
      have bound := located.2
      rw [bound_iff] at bound ⊢
      simpa [setEntering] using ⟨bound.1, bound.2.1⟩
    · exact inv.relocate place rfl located
  case testWord =>
    split at ran <;> cases ran
    · rename_i named fat
      exact inv.complete place fat
    · rename_i word
      exact inv.testedWord place word
  case setFlc =>
    cases ran
    exact inv.setsFlc place
  case swapWord =>
    split at ran <;> cases ran
    · rename_i unlocked
      exact inv.takeContended place unlocked
    · exact inv.relocate place rfl located
  case beginWait mon =>
    have owner := inv.owners.caller self mon (by rw [place]; rfl)
    simp only [owner, if_true] at ran
    cases ran
    exact inv.startBlock place
  case blocked =>
    obtain ⟨⟨free, woken⟩, rfl⟩ := of_guard ran
    exact inv.endBlock place free woken (.refl _)
  case readOwn =>
    split at ran
    · rename_i owner count word
      split at ran
      · rename_i own
        subst own
        split at ran <;> cases ran
        · rename_i zero
          subst zero
          exact inv.relocate place rfl word
        · rename_i more
          exact inv.relocate place rfl ⟨word, Nat.pos_of_ne_zero more⟩
      · cases ran
        exact inv.relocate place rfl trivial
    · rename_i mon word
      cases ran
      exact inv.relocate place rfl ⟨word, located⟩
    · cases ran
      exact inv.relocate place rfl trivial
  case writeUnlocked =>
    cases ran
    exact inv.writeUnlocked place
  case drop obj count =>
    cases ran
    obtain ⟨word, more⟩ := located
    have held := inv.held_thin word (by simp [place]) (by simp [place])
    have bounded := (inv.words.thin obj self count word).1
    have less : count - 1 ≤ maxCount := by omega
    have kept := inv.recount (.inr place) word less
    have same : state.held self obj - 1 = count - 1 + 1 := by omega
    simpa only [released, setLock, same] using kept
  case tryLock =>
    split at ran <;> cases ran
    · rename_i locked
      exact inv.acquire place locked (shallow _ rfl) rfl rfl rfl rfl rfl trivial
    · exact inv.relocate place rfl trivial
  case testFlc | retestFlc | recheckObj =>
    split at ran <;> cases ran <;> exact inv.relocate place rfl trivial
  case notify =>
    split at ran <;> cases ran
    · exact inv.notifyNext place
    · exact inv.relocate place rfl trivial
  case unlockNotifier =>
    cases ran
    exact inv.unlockCall (.inl place)
  case inspect =>
    split at ran <;> cases ran
    · rename_i count
      exact inv.inspects place count
    · exact inv.relocate place rfl located
  case inspectEntering =>
    split at ran <;> cases ran
    · exact inv.relocate place rfl located
    · exact inv.relocate place rfl ⟨located.1, located.2.1⟩
  case inspectWaits =>
    obtain ⟨fat, holds, owner, count⟩ := located
    split at ran <;> cases ran
    · rename_i noWaiter
      exact inv.relocate place rfl ⟨fat, holds, owner, count, noWaiter⟩
    · exact inv.relocate place rfl ⟨fat, holds⟩
  case deflate =>
    cases ran
    exact inv.deflate place
  case retire mon =>
    split at ran <;> cases ran
    · rename_i unused
      have retiring : (state.location self).retiring = some mon := by rw [place]; rfl
      exact inv.retires place unused (quiet mon retiring unused)
    · exact inv.relocate place rfl trivial
  case unlockDeflated =>
    cases ran
    exact inv.unlockCall (.inr place)
  case unlockFat =>
    cases ran
    exact inv.unlockFat place
  case readWaiting obj =>
    split at ran
    · rename_i owner count word
      split at ran <;> cases ran
      · rename_i own
        subst own
        exact inv.relocate place rfl word
      · exact inv.relocate place rfl trivial
    · rename_i mon word
      cases ran
      refine inv.relocate place rfl ?_
      by_cases holds : 0 < state.held self obj
      · exact .inl ⟨word, holds⟩
      · refine .inr fun owner => holds ?_
        have counted := inv.owners.inflated self obj mon word owner
        simp [State.depth, place, Location.owns] at counted
        omega
    · cases ran
      exact inv.relocate place rfl trivial
  case sleep =>
    split at ran <;> cases ran
    · rename_i owner
      exact inv.startSleep place owner
    · exact inv.relocate place rfl trivial
  case waiting =>
    obtain ⟨⟨free, woken⟩, rfl⟩ := of_guard ran
    exact inv.endSleep place free woken (.refl _)

end Invariant

end

theorem leftWaitSet_sublist (waitSet : List Thread) (self : Thread) (forward : Bool) :
    (leftWaitSet waitSet self forward).Sublist waitSet := by
  unfold leftWaitSet
  split
  · exact erase_sublist
  · split
    · exact tail_sublist _
    · exact .refl _

theorem not_mem_leftWaitSet (nodup : waitSet.Nodup) (self : Thread)
    (forward : Bool) : self ∉ leftWaitSet waitSet self forward := by
  unfold leftWaitSet
  split
  · exact nodup.not_mem_erase
  · rename_i absent
    split
    · exact fun mem => absent (mem_of_mem_tail mem)
    · exact absent

theorem Invariant.givesUp (inv : Invariant state) {forward : Bool}
    (ran : giveUp state self forward = some post) : Invariant post := by
  have absent (mon : Nat) := not_mem_leftWaitSet (inv.sleepers.nodup mon) self forward
  have sub (mon : Nat) := leftWaitSet_sublist (state.monitor mon).waitSet self forward
  unfold giveUp at ran
  split at ran
  · rename_i obj mon oldCount place
    obtain ⟨free, rfl⟩ := of_guard ran
    exact inv.endBlock place free (absent mon) (sub mon)
  · rename_i place
    cases ran
    exact inv.relocate place rfl trivial
  · rename_i obj mon oldCount place
    obtain ⟨free, rfl⟩ := of_guard ran
    exact inv.endSleep place free (absent mon) (sub mon)
  · cases ran

theorem Invariant.called (inv : Invariant state) (ran : call state self location = some post)
    (role : location.role = (Location.idle : Location Obj).role)
    (located : Located state self location) : Invariant post := by
  obtain ⟨place, rfl⟩ := of_guard ran
  exact inv.relocate place role located

theorem Invariant.step (inv : Invariant state) (guarded : Guarded state action)
    (ran : ThinLock.step state action = some post) : Invariant post := by
  obtain ⟨own, quiet, shallow⟩ := guarded
  cases action with
  | lock | wait => exact inv.called ran rfl trivial
  | unlock => exact inv.called ran rfl own
  | proceed => exact inv.proceeds quiet shallow ran
  | giveUp => exact inv.givesUp ran

theorem invariant_reachable
    (reachable : (system Thread Obj).ReachableWhile Guarded state) : Invariant state := by
  refine reachable.invariant Invariant ?_ ?_
  · rintro state rfl
    exact invariant_start
  · exact fun current action next inv guarded ran => inv.step guarded ran

/-- No two monitors of the cache have one object, and `in_wait` counts the threads that wait. -/
theorem monitors_sound (reachable : (system Thread Obj).ReachableWhile Guarded state) :
    CacheSound state ∧ Sleepers state := by
  obtain ⟨cache, -, sleepers, -⟩ := invariant_reachable reachable
  exact ⟨cache, sleepers⟩

/-! ## Mutual exclusion -/

/-- At most one thread has locked an object without having released it. A thread
that waits in `objectWait` has given the lock up. -/
theorem objectLock_exclusive
    (reachable : (system Thread Obj).ReachableWhile Guarded state) (obj : Obj)
    (left right : Thread) (leftHolds : 0 < state.depth left obj)
    (rightHolds : 0 < state.depth right obj) : left = right := by
  have inv := invariant_reachable reachable
  cases word : state.lock obj with
  | unlocked =>
    have free := inv.words.unlocked obj left word
    omega
  | thin owner count =>
    have sole (thread : Thread) (holds : 0 < state.depth thread obj) : thread = owner := by
      by_contra ne
      have none := inv.words.others obj owner count thread word ne
      omega
    exact (sole left leftHolds).trans (sole right rightHolds).symm
  | fat mon =>
    have leftOwner := inv.owners.holder left obj mon word leftHolds
    have rightOwner := inv.owners.holder right obj mon word rightHolds
    exact some.inj (leftOwner.symm.trans rightOwner)

/-! ## Recursion depths -/

section
variable (state : State Thread Obj)

def State.represented (thread : Thread) (obj : Obj) : Nat :=
  match state.lock obj with
  | .unlocked => 0
  | .thin owner count => if owner = thread then count + 1 else 0
  | .fat mon => if (state.monitor mon).owner = some thread then (state.monitor mon).count + 1 else 0

/-- The lock that a thread has in the middle of a call: it has locked the monitor, or taken the
lockword that it inflates. -/
def State.entered (thread : Thread) (obj : Obj) : Nat :=
  match state.lock obj with
  | .unlocked => 0
  | .thin _ _ => if (state.location thread).inflating.map Prod.fst = some obj then 1 else 0
  | .fat mon => if (state.location thread).owns = some mon then 1 else 0

def State.Available (obj : Obj) : Prop :=
  state.lock obj = .unlocked ∨ ∃ mon, state.lock obj = .fat mon ∧ (state.monitor mon).owner = none

structure CountsLocks : Prop where
  represented : ∀ thread obj,
    state.represented thread obj = state.depth thread obj + state.entered thread obj
  idle : ∀ thread obj, state.location thread = .idle →
    state.represented thread obj = state.held thread obj
  exclusive : ∀ thread other obj, 0 < state.represented thread obj → other ≠ thread →
    state.represented other obj = 0
  available : ∀ obj, state.Available obj ↔ ∀ thread, state.represented thread obj = 0
  found : ∀ thread obj mon order post oldCount, state.location thread = .sleep obj mon →
    step state (.proceed thread order) = some post →
      post.location thread = .waiting obj mon oldCount → state.represented thread obj = oldCount + 1
  restored : ∀ thread obj mon oldCount action post,
    state.location thread = .waiting obj mon oldCount →
      (∃ order, action = .proceed thread order) ∨ (∃ forward, action = .giveUp thread forward) →
        step state action = some post → post.represented thread obj = oldCount + 1

end

theorem Invariant.represented (inv : Invariant state) (thread : Thread) (obj : Obj) :
    state.represented thread obj = state.depth thread obj + state.entered thread obj := by
  have located := inv.located thread
  rw [State.represented, State.entered]
  cases word : state.lock obj with
  | unlocked => simp [inv.words.unlocked obj thread word]
  | thin owner count =>
    -- a contender that inflates the object has taken the lockword itself
    have taken : ∀ mon stage, state.location thread = .inflate obj mon .contention stage →
        owner = thread ∧ count = 0 ∧ state.depth thread obj = 0 := by
      intro mon stage place
      rw [place] at located
      obtain ⟨⟨lock, held⟩, -⟩ := located
      obtain ⟨rfl, rfl⟩ : owner = thread ∧ count = 0 := by simpa [word] using lock
      simp [State.depth, held]
    have inflates : (state.location thread).inflating.map Prod.fst = some obj ↔
        ∃ mon stage, state.location thread = .inflate obj mon .contention stage := by
      unfold Location.inflating
      split <;> simp_all
    dsimp only
    obtain rfl | own := eq_or_ne owner thread
    · rcases (inv.words.thin obj owner count word).2 with deep | ⟨none, rfl, contender⟩
      · rw [if_pos rfl, if_neg, deep]
        rw [inflates]
        rintro ⟨mon, stage, place⟩
        have := (taken mon stage place).2.2
        omega
      · rw [if_pos rfl, if_pos (inflates.mpr contender), none]
    · rw [if_neg own, if_neg, inv.words.others obj owner count thread word (Ne.symm own)]
      rw [inflates]
      rintro ⟨mon, stage, place⟩
      exact own (taken mon stage place).1
  | fat mon =>
    dsimp only
    by_cases owner : (state.monitor mon).owner = some thread
    · rw [if_pos owner]
      exact inv.owners.inflated thread obj mon word owner
    · rw [if_neg owner, if_neg (mt (inv.owners.caller thread mon) owner)]
      by_contra holds
      exact owner (inv.owners.holder thread obj mon word (by omega))

omit [DecidableEq Obj] in
theorem represented_exclusive (holds : 0 < state.represented self obj)
    (ne : other ≠ self) : state.represented other obj = 0 := by
  unfold State.represented at holds ⊢
  split <;> grind

omit [DecidableEq Obj] in
theorem available_iff (state : State Thread Obj) (obj : Obj) :
    state.Available obj ↔ ∀ thread, state.represented thread obj = 0 := by
  unfold State.Available State.represented
  cases word : state.lock obj with
  | unlocked | thin => simp
  | fat mon => cases owner : (state.monitor mon).owner <;> simp [owner]

/-- In every run the depth that is represented is the number of unmatched `objectLock` calls, and
`objectWait` finds and restores it. -/
theorem recursion_depth (reachable : (system Thread Obj).ReachableWhile Guarded state) :
    CountsLocks state := by
  have inv := invariant_reachable reachable
  exact
    { represented := inv.represented
      idle := by
        intro thread obj place
        have entered : state.entered thread obj = 0 := by
          unfold State.entered
          split <;> simp [place, Location.inflating, Location.owns]
        rw [inv.represented, entered]
        simp [State.depth, place]
      exclusive := fun _ _ _ => represented_exclusive
      available := available_iff state
      found := by
        intro thread obj mon order post oldCount place ran waiting
        have located := inv.located thread
        rw [place] at located
        simp only [ThinLock.step, proceed, place] at ran
        split at ran <;> cases ran
        · rename_i owner
          obtain ⟨fat, -⟩ := located.resolve_right (not_not.mpr owner)
          obtain rfl : (state.monitor mon).count = oldCount := by simpa [move] using waiting
          simp [State.represented, fat, owner]
        · simp [move] at waiting
      restored := by
        intro thread obj mon oldCount action post place isStep ran
        have located := inv.located thread
        rw [place] at located
        have fat := located.1
        rcases isStep with ⟨order, rfl⟩ | ⟨forward, rfl⟩
        · simp only [ThinLock.step, proceed, place] at ran
          split at ran <;> cases ran
          simp [State.represented, move, endWait, fat]
        · simp only [ThinLock.step, giveUp, place] at ran
          split at ran <;> cases ran
          simp [State.represented, move, endWait, fat] }

/-! Concrete runs. Thread 1 contends for object 0 with thread 2, inflates the
lock and deflates it again, up to the step that marks monitor 0 unused. -/

def steps (thread : Fin 30) (count : Nat) : List (Action (Fin 30) Nat) :=
  .replicate count (.proceed thread [])

def inflateAndDeflate : List (Action (Fin 30) Nat) :=
  .lock 2 0 :: steps 2 1 ++ .lock 1 0 :: steps 1 12 ++ .unlock 2 0 :: steps 2 2 ++
    steps 1 5 ++ steps 2 1 ++ .unlock 1 0 :: steps 1 5

/-- Thread 0 locks object 0 after thread 1 has deflated it. -/
theorem objectLock_exclusive_deflated : ∃ state : State (Fin 30) Nat,
      (system (Fin 30) Nat).ReachableWhile Guarded state ∧ 0 < state.depth 0 0 ∧
        ∀ thread, 0 < state.depth thread 0 → thread = 0 := by
  have run : ((system (Fin 30) Nat).runWhile Guarded (start _ _)
      (inflateAndDeflate ++ steps 1 2 ++ .lock 0 0 :: steps 0 1)).any
        (fun state => 0 < state.depth 0 0) = true := by
    decide +kernel
  obtain ⟨state, reachable, holds⟩ := of_any _ _ (.initial rfl) run
  exact ⟨state, reachable, holds, fun thread other =>
    objectLock_exclusive reachable 0 thread 0 other holds⟩

/-- Thread 0 inflates the lock of object 0 and waits on it. -/
theorem monitors_sound_wait : ∃ state : State (Fin 30) Nat,
      (system (Fin 30) Nat).ReachableWhile Guarded state ∧ state.lock 0 = .fat 0 ∧
        state.location 0 = .waiting 0 0 0 ∧ CacheSound state ∧ Sleepers state := by
  have run : ((system (Fin 30) Nat).runWhile Guarded (start _ _)
      (.lock 0 0 :: steps 0 1 ++ .wait 0 0 :: steps 0 8)).any
        (fun state => state.lock 0 = .fat 0 ∧ state.location 0 = .waiting 0 0 0) = true := by
    decide +kernel
  obtain ⟨state, reachable, fat, place⟩ := of_any _ _ (.initial rfl) run
  exact ⟨state, reachable, fat, place, monitors_sound reachable⟩

def contend (thread : Fin 30) (obj : Nat) (order : List Nat) : List (Action (Fin 30) Nat) :=
  .lock 3 obj :: steps 3 1 ++ .lock thread obj :: steps thread 3 ++ [.proceed thread order]

def fillCache : List (Action (Fin 30) Nat) :=
  (range 23).flatMap fun count => contend (.ofNat 30 (count + 5)) (count + 1) []

/-- Thread 0 locks object 0 until the thin count overflows and looks its monitor
up, which is still monitor 0. -/
def overflow : List (Action (Fin 30) Nat) :=
  .lock 0 0 :: steps 0 1 ++ (replicate maxCount (.lock 0 0 :: steps 0 3)).flatten ++
    .lock 0 0 :: steps 0 4

/-- Thread 1 marks monitor 0 unused and unlocks it. The next cache entry makes
the look-up scavenge the monitor, and the one after that takes it for another
object. Thread 4 then looks up a monitor for object 0 and gets a new one. -/
def recycle : List (Action (Fin 30) Nat) :=
  steps 1 2 ++ contend 28 24 [0] ++ contend 29 25 [] ++ .lock 4 0 :: steps 4 4

/-- Thread 0 locks object 0 often enough to inflate it, waits on it and gives the wait up. -/
theorem recursion_depth_overflow :
    ∃ state : State (Fin 30) Nat, (system (Fin 30) Nat).ReachableWhile Guarded state ∧
      CountsLocks state ∧ state.location 0 = .idle ∧ state.held 0 0 = 257 := by
  have run : ((system (Fin 30) Nat).runWhile Guarded (start _ _)
      (overflow ++ steps 0 4 ++ .wait 0 0 :: steps 0 2 ++ [.giveUp 0 false])).any
        (fun state => state.location 0 = .idle ∧ state.held 0 0 = 257) = true := by
    decide +kernel
  obtain ⟨state, reachable, holds⟩ := of_any _ _ (.initial rfl) run
  exact ⟨state, reachable, recursion_depth reachable, holds⟩

theorem recycled_run :
    ∃ state : State (Fin 30) Nat, (system (Fin 30) Nat).ReachableWhile OwnUnlock state ∧
      (0 < state.depth 0 0 ∧ 0 < state.depth 4 0) ∧ state.location 0 = .idle ∧
        state.held 0 0 = 257 ∧ state.location 4 = .idle ∧ state.held 4 0 = 1 ∧
          state.represented 4 0 = 0 := by
  refine of_any (start _ _) (inflateAndDeflate ++ fillCache ++
    overflow ++ recycle ++ steps 0 4 ++ steps 4 7) (.initial rfl) ?_
  decide +kernel

theorem objectLock_two_holders :
    ∃ state : State (Fin 30) Nat, (system (Fin 30) Nat).ReachableWhile OwnUnlock state ∧
        0 < state.depth 0 0 ∧ 0 < state.depth 4 0 := by
  obtain ⟨state, reachable, holders, -⟩ := recycled_run
  exact ⟨state, reachable, holders⟩

/-- Thread 4 has locked object 0 although thread 0 has it 257 times, and neither the lockword nor
the monitor shows that. -/
theorem recursion_depth_unseen :
    ∃ state : State (Fin 30) Nat, (system (Fin 30) Nat).ReachableWhile OwnUnlock state ∧
      state.location 0 = .idle ∧ state.held 0 0 = 257 ∧ state.location 4 = .idle ∧
        state.held 4 0 = 1 ∧ state.represented 4 0 = 0 := by
  obtain ⟨state, reachable, -, unseen⟩ := recycled_run
  exact ⟨state, reachable, unseen⟩

/-! ## Recycled monitors -/

/-- The monitor named by a fat lockword is the object's and is not free. -/
theorem fat_monitor_in_use
    (reachable : (system Thread Obj).ReachableWhile Guarded state) (obj : Obj) (mon : Nat)
    (fat : state.lock obj = .fat mon) :
    mon ∉ state.freeList ∧ (state.monitor mon).obj = some obj ∧
      ∀ other, state.lock other = .fat mon → other = obj := by
  have inv := invariant_reachable reachable
  have bound := inv.inflated obj mon fat
  refine ⟨inv.cache.disjoint mon bound.cached, bound.obj, fun other shared => ?_⟩
  have same := (inv.inflated other mon shared).obj.symm.trans bound.obj
  exact some.inj same

/-- Thread 0 waits on object 0 while its lock is thin. -/
theorem fat_monitor_in_use_wait : ∃ state : State (Fin 30) Nat,
      (system (Fin 30) Nat).ReachableWhile Guarded state ∧ state.lock 0 = .fat 0 ∧
        0 ∉ state.freeList ∧ (state.monitor 0).obj = some 0 := by
  have run : ((system (Fin 30) Nat).runWhile Guarded (start _ _)
      (.lock 0 0 :: steps 0 1 ++ .wait 0 0 :: steps 0 8)).any
        (fun state => state.lock 0 = .fat 0) = true := by
    decide +kernel
  obtain ⟨state, reachable, fat⟩ := of_any _ _ (.initial rfl) run
  have used := fat_monitor_in_use reachable 0 0 fat
  exact ⟨state, reachable, fat, used.1, used.2.1⟩

/-- Thread 0 waits on object 0 and looks monitor 0 up before thread 1 marks it
unused; it inflates the lock after the monitor has been scavenged. -/
theorem fat_monitor_free : ∃ state : State (Fin 30) Nat,
      (system (Fin 30) Nat).ReachableWhile OwnUnlock state ∧ state.lock 0 = .fat 0 ∧
        0 ∈ state.freeList := by
  refine of_any (start _ _) (inflateAndDeflate ++ fillCache ++
    .lock 0 0 :: steps 0 1 ++ .wait 0 0 :: steps 0 3 ++ steps 1 2 ++ contend 28 24 [0] ++
      steps 0 4) (.initial rfl) ?_
  decide +kernel

end JamVM.Lock.ThinLock
