import JamVM.Foundation.Census
import JamVM.Lock.ThinLock

/-! # What holds between the steps of the lock functions

The invariant relates the lockword, the monitor an object is bound to, the
`entering` and `in_wait` counters, the owner of the mutex and the history of
completed calls.
-/

namespace JamVM.Lock.ThinLock

/-! ## Locations -/

namespace Location

variable {Obj : Type v}

/-- The monitor whose mutex the thread has locked for the call it is in. The
lock of an object held between calls does not count. -/
def owns : Location Obj → Option Nat
  | inflate _ mon _ _ | readEntered _ mon | entered _ mon _ | testWord _ mon
  | setFlc _ mon | swapWord _ mon | beginWait _ mon | retestFlc _ mon | recheckObj _ mon
  | notify _ mon | unlockNotifier _ mon | retire _ mon | unlockDeflated _ mon => some mon
  | _ => none

def inside : Location Obj → Option Nat
  | checkObj _ mon | readLeaving _ mon | leave _ mon _ | block _ mon
  | readEntered _ mon | entered _ mon _ => some mon
  | _ => none

def asleep : Location Obj → Option Nat
  | blocked _ mon _ | waiting _ mon _ => some mon
  | _ => none

def waitsOn : Location Obj → Option Obj
  | waiting obj _ _ => some obj
  | _ => none

def acquiring : Location Obj → Option Nat
  | acquire _ mon _ => some mon
  | _ => none

def inflating : Location Obj → Option (Obj × Nat)
  | inflate obj mon .contention _ => some (obj, mon)
  | _ => none

end Location

variable {Thread : Type u} {Obj : Type v}

def State.depth [DecidableEq Obj] (state : State Thread Obj) (thread : Thread) (obj : Obj) : Nat :=
  if (state.location thread).waitsOn = some obj then 0 else state.held thread obj

structure Bound (state : State Thread Obj) (mon : Nat) (obj : Obj) : Prop where
  cached : mon ∈ state.cache
  obj : (state.monitor mon).obj = some obj
  used : (state.monitor mon).entering ≠ none

theorem bound_iff : Bound state mon obj ↔ mon ∈ state.cache ∧ (state.monitor mon).obj = some obj ∧
      (state.monitor mon).entering ≠ none :=
  ⟨fun bound => ⟨bound.1, bound.2, bound.3⟩, fun bound => ⟨bound.1, bound.2.1, bound.2.2⟩⟩

section
variable (state : State Thread Obj)

def OwnWord (thread : Thread) (obj : Obj) : Purpose → Prop
  | .overflow => state.lock obj = .thin thread maxCount
  | .wait count => state.lock obj = .thin thread count
  | .contention => state.lock obj = .thin thread 0 ∧ state.held thread obj = 0
  | .release => False

/-- A thread that has not found its own thin lock in the lockword: if it holds
the object, the lock is fat. -/
def Contends (thread : Thread) (obj : Obj) : Prop :=
  0 < state.held thread obj → ∃ mon, state.lock obj = .fat mon

def Seeks (thread : Thread) (obj : Obj) : Purpose → Prop
  | .contention => Contends state thread obj
  | .release => True
  | purpose => OwnWord state thread obj purpose

def Uninflated (mon : Nat) : Prop := ∀ obj, state.lock obj ≠ .fat mon

def Located (thread : Thread) : Location Obj → Prop
  | .bump obj count => state.lock obj = .thin thread count ∧ count < maxCount
  | .readShape obj purpose | .lookUp obj purpose => Seeks state thread obj purpose
  | .readEntering obj _ | .enter obj _ _ | .checkObj obj _ | .readLeaving obj _
  | .leave obj _ _ => Contends state thread obj
  | .acquire obj mon purpose =>
    OwnWord state thread obj purpose ∧ purpose ≠ .contention ∧ Bound state mon obj
  | .inflate obj mon purpose stage =>
    OwnWord state thread obj purpose ∧ Bound state mon obj ∧
      (stage = .writeWord → (state.monitor mon).waitSet = [])
  | .block obj mon | .readEntered obj mon | .entered obj mon _ | .testWord obj mon =>
    Contends state thread obj ∧ Bound state mon obj
  | .setFlc obj mon => Contends state thread obj ∧ Bound state mon obj ∧ Uninflated state mon
  | .swapWord obj mon | .beginWait obj mon =>
    Contends state thread obj ∧ Bound state mon obj ∧ Uninflated state mon ∧ state.flc obj = true
  | .blocked obj mon oldCount => state.held thread obj = 0 ∧ Bound state mon obj ∧ oldCount = 0
  | .readOwn obj => 0 < state.held thread obj
  | .writeUnlocked obj => state.lock obj = .thin thread 0
  | .drop obj count => state.lock obj = .thin thread count ∧ 0 < count
  | .inspect obj mon | .unlockFat obj mon => state.lock obj = .fat mon ∧ 0 < state.held thread obj
  | .inspectEntering obj mon | .inspectWaits obj mon =>
    state.lock obj = .fat mon ∧ 0 < state.held thread obj ∧
      (state.monitor mon).owner = some thread ∧ (state.monitor mon).count = 0
  | .deflate obj mon =>
    state.lock obj = .fat mon ∧ 0 < state.held thread obj ∧
      (state.monitor mon).owner = some thread ∧
      (state.monitor mon).count = 0 ∧ (state.monitor mon).inWait = 0
  | .retire _ mon => (state.monitor mon).inWait = 0 ∧ Uninflated state mon
  | .sleep obj mon =>
    (state.lock obj = .fat mon ∧ 0 < state.held thread obj) ∨
      (state.monitor mon).owner ≠ some thread
  | .waiting obj mon oldCount =>
    state.lock obj = .fat mon ∧ state.held thread obj = oldCount + 1 ∧ Bound state mon obj
  | _ => True

/-! ## The invariant -/

structure CacheSound : Prop where
  cache_nodup : state.cache.Nodup
  free_nodup : state.freeList.Nodup
  disjoint : ∀ mon, mon ∈ state.cache → mon ∉ state.freeList
  allocated : ∀ mon, mon ∈ state.cache ∨ mon ∈ state.freeList → mon < state.allocated
  used : ∀ mon, (state.monitor mon).entering ≠ none → mon ∈ state.cache
  distinct : ∀ left right obj, left ∈ state.cache → right ∈ state.cache →
    (state.monitor left).obj = some obj → (state.monitor right).obj = some obj →
    left = right

structure Sleepers : Prop where
  census : ∀ mon, Census (fun thread => (state.location thread).asleep) mon
    (state.monitor mon).inWait
  nodup : ∀ mon, (state.monitor mon).waitSet.Nodup
  asleep : ∀ mon thread, thread ∈ (state.monitor mon).waitSet →
    (state.location thread).asleep = some mon

end

section
variable [DecidableEq Obj]

structure Owners (state : State Thread Obj) : Prop where
  holder : ∀ thread obj mon, state.lock obj = .fat mon → 0 < state.depth thread obj →
    (state.monitor mon).owner = some thread
  caller : ∀ thread mon, (state.location thread).owns = some mon →
    (state.monitor mon).owner = some thread
  inflated : ∀ thread obj mon, state.lock obj = .fat mon → (state.monitor mon).owner = some thread →
    (state.monitor mon).count + 1 = state.depth thread obj +
      if (state.location thread).owns = some mon then 1 else 0
  other : ∀ thread mon, Uninflated state mon → (state.monitor mon).owner = some thread →
    (state.location thread).owns = some mon ∧ (state.monitor mon).count = 0
  free : ∀ mon, (state.monitor mon).owner = none → (state.monitor mon).count = 0

structure Words (state : State Thread Obj) : Prop where
  unlocked : ∀ obj thread, state.lock obj = .unlocked → state.depth thread obj = 0
  thin : ∀ obj owner count, state.lock obj = .thin owner count → count ≤ maxCount ∧
      (state.depth owner obj = count + 1 ∨ state.depth owner obj = 0 ∧ count = 0 ∧
          ∃ mon stage, state.location owner = .inflate obj mon .contention stage)
  others : ∀ obj owner count thread, state.lock obj = .thin owner count →
    thread ≠ owner → state.depth thread obj = 0

structure Invariant (state : State Thread Obj) : Prop where
  cache : CacheSound state
  entrants : ∀ mon, Census (fun thread => (state.location thread).inside) mon
    ((state.monitor mon).entering.getD 0)
  sleepers : Sleepers state
  owners : Owners state
  words : Words state
  inflated : ∀ obj mon, state.lock obj = .fat mon → Bound state mon obj
  located : ∀ thread, Located state thread (state.location thread)

end

theorem CacheSound.bound_eq (sound : CacheSound state) (leftBound : Bound state left obj)
    (rightBound : Bound state right obj) : left = right :=
  sound.distinct left right obj leftBound.cached rightBound.cached leftBound.obj rightBound.obj

/-! ## Other threads -/

def Guards (state : State Thread Obj) (thread : Thread) (mon : Nat) : Prop :=
  (state.location thread).acquiring = some mon ∨ (state.monitor mon).owner = some thread ∨
    (state.location thread).inside = some mon ∨
    (state.location thread).asleep = some mon

structure Undisturbed (thread : Thread) (pre post : State Thread Obj) : Prop where
  location : post.location thread = pre.location thread
  held : post.held thread = pre.held thread
  thin : ∀ obj count, pre.lock obj = .thin thread count → post.lock obj = .thin thread count
  fat : ∀ obj mon, pre.lock obj = .fat mon → 0 < pre.held thread obj → post.lock obj = .fat mon
  owner : ∀ mon, (post.monitor mon).owner = some thread ↔ (pre.monitor mon).owner = some thread
  owned : ∀ mon, (pre.monitor mon).owner = some thread →
    (post.monitor mon).count = (pre.monitor mon).count ∧
      (post.monitor mon).inWait = (pre.monitor mon).inWait ∧
      (post.monitor mon).waitSet = (pre.monitor mon).waitSet
  bound : ∀ mon obj, Guards pre thread mon → Bound pre mon obj → Bound post mon obj
  uninflated : ∀ mon, (pre.monitor mon).owner = some thread →
    Uninflated pre mon → Uninflated post mon
  flc : ∀ mon obj, (pre.monitor mon).owner = some thread →
    Bound pre mon obj → pre.flc obj = true → post.flc obj = true

namespace Undisturbed

variable {thread : Thread} {pre post : State Thread Obj}
  (undisturbed : Undisturbed thread pre post)
include undisturbed

theorem ownWord (obj : Obj) (purpose : Purpose)
    (word : OwnWord pre thread obj purpose) : OwnWord post thread obj purpose := by
  cases purpose with
  | overflow | wait => exact undisturbed.thin _ _ word
  | contention => exact ⟨undisturbed.thin _ _ word.1, undisturbed.held ▸ word.2⟩
  | release => exact word

theorem contends (obj : Obj) (contends : Contends pre thread obj) : Contends post thread obj := by
  intro holds
  rw [undisturbed.held] at holds
  obtain ⟨mon, fat⟩ := contends holds
  exact ⟨mon, undisturbed.fat _ _ fat holds⟩

theorem seeks (obj : Obj) (purpose : Purpose)
    (seeks : Seeks pre thread obj purpose) : Seeks post thread obj purpose := by
  cases purpose with
  | contention => exact undisturbed.contends obj seeks
  | release => trivial
  | overflow => exact undisturbed.ownWord obj .overflow seeks
  | wait count => exact undisturbed.ownWord obj (.wait count) seeks

theorem located (caller : ∀ mon, (pre.location thread).owns = some mon →
      (pre.monitor mon).owner = some thread)
    (located : Located pre thread (pre.location thread)) :
    Located post thread (post.location thread) := by
  rw [undisturbed.location]
  have ownWord := undisturbed.ownWord
  have contends := undisturbed.contends
  have seeks := undisturbed.seeks
  obtain ⟨_, held, thin, fat, owner, owned, _, uninflated, flc⟩ := undisturbed
  generalize place : pre.location thread = location at *
  cases location <;>
    simp only [Located, Guards, Location.owns, Location.acquiring, Location.inside,
      Location.asleep, place] at * <;>
    grind

end Undisturbed

end JamVM.Lock.ThinLock
