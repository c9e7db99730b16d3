import JamVM.Lock.ThinLockInvariant

/-! # What each step of the lock functions keeps -/

namespace JamVM.Lock.ThinLock

open ThinLock.State (allocMonitor setEntering)
open List
open Function

section
variable {Thread : Type u} {Obj : Type v} {pre post : State Thread Obj}

/-! ## Frames -/

theorem CacheSound.frame (sound : CacheSound pre)
    (cache : post.cache = pre.cache) (freeList : post.freeList = pre.freeList)
    (allocated : post.allocated = pre.allocated)
    (obj : ∀ mon, (post.monitor mon).obj = (pre.monitor mon).obj)
    (used : ∀ mon, (post.monitor mon).entering ≠ none → mon ∈ pre.cache) :
    CacheSound post := by
  obtain ⟨cacheNodup, freeNodup, disjoint, bounded, _, distinct⟩ := sound
  constructor <;> simp only [cache, freeList, allocated, obj] <;> assumption

theorem Sleepers.frame (sleepers : Sleepers pre)
    (asleep : ∀ thread, (post.location thread).asleep = (pre.location thread).asleep)
    (inWait : ∀ mon, (post.monitor mon).inWait = (pre.monitor mon).inWait)
    (waitSet : ∀ mon, (post.monitor mon).waitSet.Sublist (pre.monitor mon).waitSet) :
    Sleepers post := by
  obtain ⟨census, nodup, sleeping⟩ := sleepers
  constructor
  · simpa only [asleep, inWait] using census
  · exact fun mon => (nodup mon).sublist (waitSet mon)
  · exact fun mon thread mem =>
      (asleep thread).trans (sleeping mon thread ((waitSet mon).subset mem))

variable [DecidableEq Obj]

theorem Owners.frame (owners : Owners pre)
    (lock : ∀ obj mon, post.lock obj = .fat mon ↔ pre.lock obj = .fat mon)
    (owner : ∀ mon, (post.monitor mon).owner = (pre.monitor mon).owner)
    (count : ∀ mon, (post.monitor mon).count = (pre.monitor mon).count)
    (owns : ∀ thread, (post.location thread).owns = (pre.location thread).owns)
    (depth : ∀ thread obj mon, pre.lock obj = .fat mon →
      post.depth thread obj = pre.depth thread obj) : Owners post := by
  obtain ⟨holder, caller, inflated, other, free⟩ := owners
  constructor <;> simp only [Uninflated, lock, owner, count, owns, ne_eq] at * <;> grind

theorem Words.frame (words : Words pre) (lock : post.lock = pre.lock)
    (depth : ∀ thread obj, (∀ mon, pre.lock obj ≠ .fat mon) →
      post.depth thread obj = pre.depth thread obj)
    (contender : ∀ thread obj mon stage, pre.location thread = .inflate obj mon .contention stage →
        ∃ stage, post.location thread = .inflate obj mon .contention stage) :
    Words post := by
  obtain ⟨unlocked, thin, others⟩ := words
  constructor <;> simp only [lock] <;> grind

end

variable {Thread : Type u} {Obj : Type v}
  {state post : State Thread Obj} {self thread : Thread} {obj : Obj} {mon : Nat}
  {location : Location Obj}

/-! ## Other threads during a step -/

namespace Undisturbed

theorem trans (first : Undisturbed thread pre middle) (second : Undisturbed thread middle post) :
    Undisturbed thread pre post := by
  have guards (mon : Nat) (guards : Guards pre thread mon) : Guards middle thread mon := by
    unfold Guards at guards ⊢
    rwa [first.location, first.owner]
  have bound (mon : Nat) (obj : Obj) (guarded : Guards pre thread mon)
      (bound : Bound pre mon obj) : Bound middle mon obj :=
    first.bound mon obj guarded bound
  have owned (mon : Nat) := (first.owner mon).mpr
  constructor
  · exact second.location.trans first.location
  · exact second.held.trans first.held
  · exact fun obj count word => second.thin obj count (first.thin obj count word)
  · exact fun obj mon word holds =>
      second.fat obj mon (first.fat obj mon word holds) (first.held ▸ holds)
  · exact fun mon => (second.owner mon).trans (first.owner mon)
  · intro mon owner
    have left := first.owned mon owner
    have right := second.owned mon (owned mon owner)
    exact ⟨right.1.trans left.1, right.2.1.trans left.2.1, right.2.2.trans left.2.2⟩
  · exact fun mon obj guarded bound =>
      second.bound mon obj (guards mon guarded) (first.bound mon obj guarded bound)
  · exact fun mon owner unused =>
      second.uninflated mon (owned mon owner) (first.uninflated mon owner unused)
  · exact fun mon obj owner bound bit =>
      second.flc mon obj (owned mon owner)
        (first.bound mon obj (.inr (.inl owner)) bound) (first.flc mon obj owner bound bit)

theorem setMonitor (obj : monitor.obj = (state.monitor mon).obj)
    (used : ∀ obj, Guards state thread mon → Bound state mon obj → monitor.entering ≠ none)
    (owner : monitor.owner = some thread ∨ (state.monitor mon).owner = some thread →
      monitor.owner = (state.monitor mon).owner ∧ monitor.count = (state.monitor mon).count ∧
        monitor.inWait = (state.monitor mon).inWait ∧
        monitor.waitSet = (state.monitor mon).waitSet) :
    Undisturbed thread state (state.setMonitor mon monitor) := by
  constructor <;>
    simp only [State.setMonitor, bound_iff, Uninflated, Guards, update_apply] at * <;>
    grind

theorem setLock [DecidableEq Obj] (thin : ∀ count, state.lock obj ≠ .thin thread count)
    (fat : ∀ mon, state.lock obj = .fat mon → state.held thread obj = 0)
    (inflated : ∀ mon, word = .fat mon → (state.monitor mon).owner ≠ some thread) :
    Undisturbed thread state (state.setLock obj word) := by
  constructor <;>
    simp only [State.setLock, bound_iff, Uninflated, update_apply] <;> grind

end Undisturbed

/-! ## The monitor cache -/

structure Found (pre post : State Thread Obj) (obj : Obj) (mon : Nat) : Prop where
  lock : post.lock = pre.lock
  flc : post.flc = pre.flc
  held : post.held = pre.held
  location : post.location = pre.location
  owner : ∀ other, (post.monitor other).owner = (pre.monitor other).owner
  count : ∀ other, (post.monitor other).count = (pre.monitor other).count
  inWait : ∀ other, (post.monitor other).inWait = (pre.monitor other).inWait
  waitSet : ∀ other, (post.monitor other).waitSet = (pre.monitor other).waitSet
  entering : ∀ other, (post.monitor other).entering.getD 0 = (pre.monitor other).entering.getD 0
  sound : CacheSound post
  kept : ∀ other obj, Bound pre other obj → Bound post other obj
  bound : Bound post mon obj

theorem Found.undisturbed (found : Found state post obj mon) (thread : Thread) :
    Undisturbed thread state post := by
  obtain ⟨lock, flc, held, location, owner, count, inWait, waitSet, _, _, kept, _⟩ := found
  constructor
  case uninflated => simpa only [Uninflated, lock] using fun _ _ => id
  all_goals grind

theorem Found.scavenge
    (found : Found state middle obj mon) (done : middle.scavenge order = some post) :
    Found state post obj mon := by
  unfold State.scavenge at done
  dsimp only at done
  split at done
  case isFalse => cases done
  case isTrue perm =>
  cases done
  have unused (other : Nat) : other ∈ order ↔
      other ∈ middle.cache ∧ (middle.monitor other).entering = none := by
    rw [(isPerm_iff.mp perm).mem_iff, mem_filter, Option.isNone_iff_eq_none]
  have nodup : order.Nodup := (isPerm_iff.mp perm).nodup_iff.mpr (found.sound.cache_nodup.filter _)
  obtain ⟨lock, flc, held, location, owner, count, inWait, waitSet, entering,
    ⟨cacheNodup, freeNodup, disjoint, allocated, used, distinct⟩, kept, bound⟩ := found
  constructor
  case sound =>
    constructor
    case cache_nodup => exact cacheNodup.filter _
    case free_nodup =>
      rw [nodup_append]
      grind
    all_goals
      simp only [mem_filter, mem_append, unused, Option.isSome_iff_ne_none] at *
      grind
  all_goals
    simp only [bound_iff, mem_filter, Option.isSome_iff_ne_none] at *
    grind

section
variable [DecidableEq Obj]

theorem Invariant.located_step (inv : Invariant state)
    (place : post.location self = location) (located : Located post self location)
    (others : ∀ thread, thread ≠ self → Undisturbed thread state post) (thread : Thread) :
    Located post thread (post.location thread) := by
  obtain rfl | same := eq_or_ne thread self
  · exact place ▸ located
  · exact (others thread same).located (inv.owners.caller thread) (inv.located thread)

/-! ## Writes that move no thread -/

theorem Located.writeFlc (located : Located state thread location)
    (unread : ∀ mon, location = .swapWord obj mon ∨ location = .beginWait obj mon → bit = true) :
    Located (state.writeFlc obj bit) thread location := by
  cases location
  case swapWord other mon | beginWait other mon =>
    obtain ⟨contends, bound, uninflated, set⟩ := located
    refine ⟨contends, { bound with }, uninflated, ?_⟩
    obtain rfl | same := eq_or_ne other obj
    · simpa [State.writeFlc] using unread mon (by simp)
    · simpa [State.writeFlc, same] using set
  all_goals
    refine Eq.mp ?_ located
    simp only [Located, bound_iff] <;> rfl

section
variable (inv : Invariant state)
include inv

theorem Invariant.monitors (lock : post.lock = state.lock)
    (held : post.held = state.held) (location : post.location = state.location)
    (owner : ∀ mon, (post.monitor mon).owner = (state.monitor mon).owner)
    (count : ∀ mon, (post.monitor mon).count = (state.monitor mon).count)
    (inWait : ∀ mon, (post.monitor mon).inWait = (state.monitor mon).inWait)
    (waitSet : ∀ mon, (post.monitor mon).waitSet.Sublist (state.monitor mon).waitSet)
    (entering : ∀ mon, (post.monitor mon).entering.getD 0 = (state.monitor mon).entering.getD 0)
    (cache : CacheSound post)
    (bound : ∀ obj mon, state.lock obj = .fat mon → Bound post mon obj)
    (located : ∀ thread, Located post thread (post.location thread)) :
    Invariant post := by
  have depth (thread : Thread) (obj : Obj) : post.depth thread obj = state.depth thread obj := by
    simp only [State.depth, held, location]
  constructor
  · exact cache
  · simpa only [location, entering] using inv.entrants
  · exact inv.sleepers.frame (fun _ => by rw [location]) inWait waitSet
  · exact inv.owners.frame (fun _ _ => by rw [lock]) owner count
      (fun _ => by rw [location]) (fun thread obj _ _ => depth thread obj)
  · exact inv.words.frame lock (fun thread obj _ => depth thread obj)
      (fun _ _ _ stage place => ⟨stage, location ▸ place⟩)
  · exact fun obj mon fat => bound obj mon (lock ▸ fat)
  · exact located

theorem Invariant.writeFlc
    (unread : ∀ thread mon, state.location thread = .swapWord obj mon ∨
      state.location thread = .beginWait obj mon → bit = true) :
    Invariant (state.writeFlc obj bit) := by
  have cache := inv.cache
  refine inv.monitors rfl rfl rfl (fun _ => rfl) (fun _ => rfl) (fun _ => rfl)
    (fun _ => .refl _) (fun _ => rfl) ?_ ?_ ?_
  · exact cache.frame rfl rfl rfl (fun _ => rfl) cache.used
  · simpa only [State.writeFlc, bound_iff] using inv.inflated
  · exact fun thread => (inv.located thread).writeFlc (unread thread)

theorem Invariant.setWaitSet (owner : (state.monitor mon).owner = some self)
    (located : Located (state.setWaitSet mon waitSet) self (state.location self))
    (sub : waitSet.Sublist (state.monitor mon).waitSet) :
    Invariant (state.setWaitSet mon waitSet) := by
  have others (thread : Thread) (ne : thread ≠ self) :
      Undisturbed thread state (state.setWaitSet mon waitSet) :=
    .setMonitor rfl (fun _ _ bound => bound.used) (by grind)
  have cache := inv.cache
  have inflated := inv.inflated
  refine inv.monitors rfl rfl rfl ?_ ?_ ?_ ?_ ?_ ?_ ?_ (inv.located_step rfl located others)
  case refine_6 =>
    refine cache.frame rfl rfl rfl ?_ ?_ <;>
      simp only [State.setWaitSet, State.setMonitor, update_apply] <;>
      grind [cache.used]
  all_goals
    simp only [State.setWaitSet, State.setMonitor, update_apply, bound_iff] at *
    grind

theorem Invariant.retire (owner : (state.monitor mon).owner = some self)
    (unused : (state.monitor mon).entering = some 0)
    (noWaiter : (state.monitor mon).inWait = 0) (uninflated : Uninflated state mon)
    (unsought : ∀ thread, (state.location thread).acquiring ≠ some mon)
    (located : Located (state.setEntering mon none) self (state.location self)) :
    Invariant (state.setEntering mon none) := by
  have outside (thread : Thread) : (state.location thread).inside ≠ some mon := by
    intro inside
    have entered := (inv.entrants mon).pos inside
    simp [unused] at entered
  have awake (thread : Thread) : (state.location thread).asleep ≠ some mon := by
    intro asleep
    have waits := (inv.sleepers.census mon).pos asleep
    omega
  have others (thread : Thread) (ne : thread ≠ self) :
      Undisturbed thread state (state.setEntering mon none) := by
    refine .setMonitor rfl (fun obj guards _ => absurd guards ?_) (by grind)
    rintro (sought | owned | inside | asleep)
    · exact unsought thread sought
    · exact ne (Option.some.inj (owned.symm.trans owner))
    · exact outside thread inside
    · exact awake thread asleep
  have cache := inv.cache
  have inflated := inv.inflated
  refine inv.monitors rfl rfl rfl ?_ ?_ ?_ ?_ ?_ ?_ ?_ (inv.located_step rfl located others)
  case refine_6 =>
    refine cache.frame rfl rfl rfl ?_ ?_ <;>
      simp only [setEntering, State.setMonitor, update_apply] <;>
      grind [cache.used]
  all_goals
    simp only [setEntering, State.setMonitor, update_apply, bound_iff, Uninflated] at *
    grind

/-! ## Looking a monitor up -/

theorem Invariant.found (found : Found state post obj mon) : Invariant post :=
  inv.monitors found.lock found.held found.location found.owner found.count
    found.inWait (fun other => found.waitSet other ▸ .refl _) found.entering found.sound
    (fun obj mon fat => found.kept mon obj (inv.inflated obj mon fat))
    fun thread => (found.undisturbed thread).located (inv.owners.caller thread) (inv.located thread)

end

theorem State.entry_eq_none (absent : state.entry obj = none) (mon : Nat)
    (cached : mon ∈ state.cache) : (state.monitor mon).obj ≠ some obj := by
  have missed := find?_eq_none.mp absent mon cached
  simpa using missed

theorem CacheSound.alloc (sound : CacheSound state) (absent : state.entry obj = none) : Found state
      { (state.allocMonitor obj).1 with
        cache := (state.allocMonitor obj).2 :: (state.allocMonitor obj).1.cache }
      obj (state.allocMonitor obj).2 := by
  have absent := State.entry_eq_none absent
  obtain ⟨cacheNodup, freeNodup, disjoint, allocated, used, distinct⟩ := sound
  unfold allocMonitor
  cases free : state.freeList with
  | nil =>
    constructor
    case sound =>
      constructor <;>
        simp only [State.setMonitor, update_apply, mem_cons, nodup_cons] at * <;> grind
    all_goals
      simp only [State.setMonitor, update_apply, bound_iff, mem_cons] at *
    all_goals grind
  | cons =>
    constructor
    case sound =>
      constructor <;>
        simp only [State.setMonitor, update_apply, mem_cons, nodup_cons, free] at * <;> grind
    all_goals
      simp only [State.setMonitor, update_apply, bound_iff, mem_cons, free] at *
    all_goals grind

theorem CacheSound.findHashEntry (sound : CacheSound state)
    (found : state.findHashEntry obj order = some (post, mon)) :
    Found state post obj mon := by
  unfold State.findHashEntry at found
  cases entry : state.entry obj with
  | some other =>
    have cached := mem_of_find?_eq_some entry
    have named : (state.monitor other).obj = some obj := by simpa using find?_some entry
    simp only [entry] at found
    split at found <;> cases found
    · constructor
      case sound =>
        refine sound.frame rfl rfl rfl ?_ ?_ <;>
          simp only [setEntering, State.setMonitor, update_apply] <;>
          grind [sound.used]
      all_goals
        simp only [setEntering, State.setMonitor, update_apply, bound_iff]
      all_goals grind
    · constructor
      case sound => exact sound
      case bound => exact ⟨cached, named, by assumption⟩
      all_goals grind
  | none =>
    have allocated := sound.alloc entry
    simp only [entry] at found
    split at found
    · obtain ⟨_, scavenged, same⟩ := Option.map_eq_some_iff.mp found
      cases same
      exact allocated.scavenge scavenged
    · cases found
      exact allocated

end

/-! ## Steps that only read -/

variable [DecidableEq Thread]

namespace Undisturbed

theorem move (ne : thread ≠ self) (location : Location Obj) :
    Undisturbed thread state (state.move self location) := by
  constructor <;> simp [State.move, ne, bound_iff, Uninflated]; grind

theorem setHeld [DecidableEq Obj] (ne : thread ≠ self) (obj : Obj) (count : Nat) :
    Undisturbed thread state (state.setHeld self obj count) := by
  constructor <;> simp [State.setHeld, ne, bound_iff, Uninflated]; grind

end Undisturbed

theorem located_move (state : State Thread Obj) (self thread : Thread)
    (location place : Location Obj) :
    Located (state.move self location) thread place = Located state thread place := by
  cases place <;> simp only [Located, bound_iff] <;> rfl

variable [DecidableEq Obj]

def Location.role (location : Location Obj) :=
  (location.owns, location.inside, location.asleep, location.waitsOn, location.inflating)

omit [DecidableEq Obj] in
theorem Location.inflating_eq {pre post : Location Obj}
    (same : post.inflating = pre.inflating) (obj : Obj) (mon : Nat)
    (stage : InflateStage) (contender : pre = .inflate obj mon .contention stage) :
    ∃ stage, post = .inflate obj mon .contention stage := by
  subst contender
  cases post with
  | inflate _ _ purpose => cases purpose <;> simp_all [Location.inflating]
  | _ => simp [Location.inflating] at same

theorem Invariant.relocate (inv : Invariant state)
    (place : state.location self = old) (role : location.role = old.role)
    (located : Located state self location) : Invariant (state.move self location) := by
  obtain ⟨cache, entrants, sleepers, owners, words, inflated, points⟩ := inv
  obtain ⟨owns, inside, asleep, waitsOn, contender⟩ :
      location.owns = _ ∧ location.inside = _ ∧ location.asleep = _ ∧
        location.waitsOn = _ ∧ location.inflating = _ := by
    simpa only [Location.role, Prod.mk.injEq] using role
  have contender := Location.inflating_eq contender
  constructor
  · exact cache.frame rfl rfl rfl (fun _ => rfl) cache.used
  · refine fun mon => (entrants mon).congr fun thread => ?_
    simp only [State.move, update_apply]
    grind
  · refine sleepers.frame (fun thread => ?_) (fun _ => rfl) (fun _ => .refl _)
    simp only [State.move, update_apply]
    grind
  · refine owners.frame (fun _ _ => .rfl) (fun _ => rfl) (fun _ => rfl)
      (fun thread => ?_) (fun thread obj _ _ => ?_) <;>
      simp only [State.move, State.depth, update_apply] <;> grind
  · refine words.frame rfl (fun thread obj _ => ?_) (fun thread obj mon stage => ?_) <;>
      simp only [State.move, State.depth, update_apply] <;> grind
  · simpa only [State.move, bound_iff] using inflated
  · intro thread
    rw [located_move]
    simp only [State.move, update_apply]
    grind

end JamVM.Lock.ThinLock
