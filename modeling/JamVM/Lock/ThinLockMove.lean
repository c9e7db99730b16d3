import JamVM.Lock.ThinLockStep

/-! # Steps that pass a lock, a monitor or an announcement on -/

namespace JamVM.Lock.ThinLock

open Location Function
open ThinLock.State (move released setEntering setHeld setLock setMonitor)

attribute [local simp] Location.owns setMonitor

variable {Thread : Type u} {Obj : Type v} [DecidableEq Obj]
  {state post : State Thread Obj} {self thread : Thread} {obj : Obj} {mon : Nat}
  {location : Location Obj}

attribute [grind =] Location.owns Location.inside Location.asleep Location.waitsOn

theorem Invariant.point (inv : Invariant state) (place : state.location self = location) :
    Located state self location :=
  place ▸ inv.located self

theorem Invariant.handover (inv : Invariant state)
    (cache : post.cache = state.cache) (freeList : post.freeList = state.freeList)
    (allocated : post.allocated = state.allocated)
    (object : ∀ mon, (post.monitor mon).obj = (state.monitor mon).obj)
    (entering : ∀ mon, (post.monitor mon).entering = (state.monitor mon).entering)
    (inside : ∀ thread, (post.location thread).inside = (state.location thread).inside)
    (sleepers : Sleepers post) (owners : Owners post) (words : Words post)
    (bound : ∀ obj mon, post.lock obj = .fat mon → Bound state mon obj)
    (place : post.location self = location) (located : Located post self location)
    (others : ∀ thread, thread ≠ self → Undisturbed thread state post) :
    Invariant post := by
  have points := inv.located_step place located others
  constructor
  · refine inv.cache.frame cache freeList allocated object fun mon => ?_
    rw [entering]
    exact inv.cache.used mon
  · simpa only [inside, entering] using inv.entrants
  · exact sleepers
  · exact owners
  · exact words
  · intro obj mon fat
    rw [bound_iff, cache, object, entering, ← bound_iff]
    exact bound obj mon fat
  · exact points

variable [DecidableEq Thread]

omit [DecidableEq Obj] in
theorem State.move_self (state : State Thread Obj) (self : Thread)
    (location : Location Obj) : (state.move self location).location self = location := by
  simp [move]

theorem State.setHeld_self (state : State Thread Obj) (self : Thread) (obj : Obj) :
    state.setHeld self obj (state.held self obj) = state := by
  simp [setHeld]

variable {entering oldCount : Nat} {purpose : Purpose} {waitSet : List Thread}

theorem Invariant.announce (inv : Invariant state) (used : (state.monitor mon).entering ≠ none)
    (owns : location.owns = (state.location self).owns)
    (asleep : location.asleep = (state.location self).asleep)
    (waitsOn : location.waitsOn = (state.location self).waitsOn)
    (contender : ∀ obj mon stage, state.location self ≠ .inflate obj mon .contention stage)
    (entrants : ∀ other, Census
      (fun thread => (update state.location self location thread).inside) other
      (if other = mon then entering else (state.monitor other).entering.getD 0))
    (located : Located (state.setEntering mon (some entering)) self location) :
    Invariant ((state.setEntering mon (some entering)).move self location) := by
  have others (thread : Thread) (ne : thread ≠ self) : Undisturbed thread state
      ((state.setEntering mon (some entering)).move self location) := by
    have written : Undisturbed thread state (state.setEntering mon (some entering)) :=
      .setMonitor rfl (by simp) (by grind)
    exact written.trans (.move ne location)
  have points := inv.located_step (State.move_self _ self location) (by rwa [located_move]) others
  obtain ⟨cache, _, sleepers, owners, words, inflated, _⟩ := inv
  constructor
  · refine cache.frame rfl rfl rfl (fun other => ?_) (fun other => ?_) <;>
      simp only [move, setEntering, setMonitor, update_apply] <;>
      grind [cache.used]
  · intro other
    have census := entrants other
    simp only [move, setEntering, setMonitor]
    by_cases same : other = mon
    · simpa [same] using census
    · simpa [same] using census
  · refine sleepers.frame (fun thread => ?_) (fun other => ?_) (fun other => ?_) <;>
      simp only [move, setEntering, setMonitor, update_apply] <;>
      grind
  · refine owners.frame (fun _ _ => .rfl) (fun other => ?_) (fun other => ?_)
      (fun thread => ?_) (fun thread obj _ _ => ?_) <;>
      simp only [move, State.depth, setEntering, setMonitor, update_apply] <;> grind
  · refine words.frame rfl (fun thread obj _ => ?_) (fun thread obj mon stage => ?_) <;>
      simp only [move, State.depth, setEntering, setMonitor, update_apply] <;> grind
  · intro obj other fat
    have bound := inflated obj other fat
    simp only [bound_iff, move, setEntering, setMonitor, update_apply] at bound ⊢
    grind
  · exact points

theorem Invariant.enter (inv : Invariant state)
    (place : state.location self = .enter obj mon entering)
    (current : (state.monitor mon).entering = some entering) :
    Invariant ((state.setEntering mon (some (entering + 1))).move self (.checkObj obj mon)) := by
  have located := inv.point place
  refine inv.announce (by simp [current]) (by simp [place])
    (by simp [place, Location.asleep]) (by simp [place, Location.waitsOn])
    (by simp [place]) (fun other => ?_) located
  have census := inv.entrants other
  split
  · subst other
    rw [current] at census
    exact census.join (fun _ (ne : _ ≠ self) => by simp [ne])
      (by simp [place, Location.inside]) (by simp [Location.inside])
  · refine census.congr fun thread => ?_
    obtain rfl | same := eq_or_ne thread self
    · simp [place, Location.inside]; omega
    · simp [same]

theorem Invariant.leave (inv : Invariant state) (place : state.location self = old)
    (current : (state.monitor mon).entering = some entering)
    (inside : old.inside = some mon) (outside : location.inside = none)
    (owns : location.owns = old.owns)
    (awake : location.asleep = none) (waitsOn : location.waitsOn = none)
    (located : Located (state.setEntering mon (some (entering - 1))) self location) :
    Invariant ((state.setEntering mon (some (entering - 1))).move self location) := by
  subst place
  have place : (state.location self).asleep = none ∧ (state.location self).waitsOn = none ∧
      ∀ obj mon stage, state.location self ≠ .inflate obj mon .contention stage := by
    cases place : state.location self <;>
      simp_all [Location.inside, Location.asleep, Location.waitsOn]
  refine inv.announce (by simp [current]) owns (awake.trans place.1.symm)
    (waitsOn.trans place.2.1.symm) place.2.2 (fun other => ?_) located
  have census := inv.entrants other
  split
  · subst other
    rw [current] at census
    exact census.leave (fun _ (ne : _ ≠ self) => by simp [ne]) inside (by simp [outside])
  · refine census.congr fun thread => ?_
    obtain rfl | same := eq_or_ne thread self
    · simp [outside, inside]; omega
    · simp [same]

/-! ## Owners -/

omit [DecidableEq Obj] in
theorem State.monitorLock_eq (locked : state.monitorLock mon self = some post) :
    ∃ count, post = state.setMonitor mon
        { state.monitor mon with owner := some self, count := count } ∧
      ((state.monitor mon).owner = some self ∧ count = ((state.monitor mon).count + 1) % 2 ^ 32 ∨
        (state.monitor mon).owner = none ∧ count = (state.monitor mon).count) := by
  unfold State.monitorLock at locked
  grind

theorem Invariant.writeMonitor (inv : Invariant state) (place : state.location self = old)
    (object : new.obj = (state.monitor mon).obj)
    (entering : new.entering = (state.monitor mon).entering)
    (mine : ∀ thread ≠ self, new.owner ≠ some thread ∧ (state.monitor mon).owner ≠ some thread)
    (inside : location.inside = old.inside)
    (contender : old.inflating = none)
    (waits : ∀ obj, (∀ mon, state.lock obj ≠ .fat mon) →
      (location.waitsOn = some obj ↔ old.waitsOn = some obj))
    (sleepers : Sleepers ((state.setMonitor mon new).move self location))
    (owners : Owners ((state.setMonitor mon new).move self location))
    (located : Located (state.setMonitor mon new) self location) :
    Invariant ((state.setMonitor mon new).move self location) := by
  have others (thread : Thread) (ne : thread ≠ self) :
      Undisturbed thread state (state.setMonitor mon new) :=
    .setMonitor object (fun _ _ bound => entering ▸ bound.used) (by grind)
  refine inv.handover rfl rfl rfl (fun other => ?_) (fun other => ?_) (fun thread => ?_)
    sleepers owners
    (inv.words.frame rfl (fun thread obj _ => ?_) (fun thread obj mon stage => ?_))
    inv.inflated (State.move_self _ self location) (by rwa [located_move])
    fun thread ne => (others thread ne).trans (.move ne location)
  all_goals
    simp only [move, State.depth, setMonitor, update_apply]
    grind [inflating]

theorem Invariant.acquire (inv : Invariant state) (place : state.location self = old)
    (locked : state.monitorLock mon self = some post)
    (shallow : (state.monitor mon).owner = some self → (state.monitor mon).count + 1 < 2 ^ 31)
    (free : old.owns = none) (owns : location.owns = some mon)
    (inside : location.inside = old.inside) (asleep : location.asleep = old.asleep)
    (waitsOn : location.waitsOn = old.waitsOn) (located : Located post self location) :
    Invariant (post.move self location) := by
  subst place
  obtain ⟨count, rfl, counted⟩ := State.monitorLock_eq locked
  have contender : (state.location self).inflating = none := by
    cases place : state.location self <;> simp_all [inflating]
  refine inv.writeMonitor rfl rfl rfl (by grind) inside contender (by simp [waitsOn])
    (inv.sleepers.frame (fun thread => ?_) (fun other => ?_) (fun other => ?_)) ?_ located
  case refine_4 =>
    obtain ⟨holder, caller, inflated, other, free⟩ := inv.owners
    constructor <;>
      simp only [move, State.depth, setMonitor, Uninflated, update_apply] at * <;> grind
  all_goals
    simp only [move, setMonitor, update_apply]
    grind

omit [DecidableEq Obj] in
theorem State.monitorUnlock_eq (owner : (state.monitor mon).owner = some self) :
    ∃ owner count, state.monitorUnlock mon self = state.setMonitor mon
        { state.monitor mon with owner := owner, count := count } ∧
      ((state.monitor mon).count = 0 ∧ owner = none ∧ count = 0 ∨
        0 < (state.monitor mon).count ∧ owner = some self ∧
          count = (state.monitor mon).count - 1) := by
  unfold State.monitorUnlock
  grind

section
variable (inv : Invariant state)
include inv

namespace Invariant

theorem unlockCall (place : state.location self = .unlockNotifier obj mon ∨
      state.location self = .unlockDeflated obj mon) :
    Invariant ((state.monitorUnlock mon self).move self .idle) := by
  have owns : (state.location self).owns = some mon := by
    rcases place with place | place <;> rw [place] <;> rfl
  have owned := inv.owners.caller self mon owns
  obtain ⟨owner, count, written, counted⟩ := State.monitorUnlock_eq owned
  rw [written]
  refine inv.writeMonitor rfl rfl rfl (by grind) (by grind) (by grind [inflating]) (by grind)
    (inv.sleepers.frame (fun thread => ?_) (fun other => ?_) (fun other => ?_)) ?_ trivial
  case refine_4 =>
    obtain ⟨holder, caller, inflated, other, free⟩ := inv.owners
    constructor <;>
      simp only [move, State.depth, setMonitor, Uninflated, update_apply] at * <;> grind
  all_goals
    simp only [move, setMonitor, update_apply]
    grind

theorem unlockFat (place : state.location self = .unlockFat obj mon) :
    Invariant (((state.monitorUnlock mon self).released self obj).move self .idle) := by
  obtain ⟨fat, holds⟩ := inv.point place
  have depth : state.depth self obj = state.held self obj := by
    simp [State.depth, place, Location.waitsOn]
  have owned := inv.owners.holder self obj mon fat (depth ▸ holds)
  obtain ⟨owner, count, written, counted⟩ := State.monitorUnlock_eq owned
  have others (thread : Thread) (ne : thread ≠ self) :
      Undisturbed thread state (state.monitorUnlock mon self) := by
    rw [written]
    exact .setMonitor rfl (fun _ _ bound => bound.used) (by grind)
  rw [written] at others ⊢
  refine inv.handover rfl rfl rfl (fun other => ?_) (fun other => ?_) (fun thread => ?_)
    (inv.sleepers.frame (fun thread => ?_) (fun other => ?_) (fun other => ?_)) ?_
    (inv.words.frame rfl (fun thread obj _ => ?_) (fun thread obj mon stage => ?_))
    inv.inflated (State.move_self _ self .idle) trivial
    fun thread ne => (others thread ne).trans ((Undisturbed.setHeld ne _ _).trans (.move ne .idle))
  case refine_7 =>
    obtain ⟨holder, caller, inflated, other, free⟩ := inv.owners
    have bound := inv.inflated
    constructor <;>
      simp only [move, State.depth, released, setHeld, setMonitor,
        Uninflated, bound_iff, update_apply] at * <;>
      grind
  all_goals
    simp only [move, State.depth, released, setHeld, setMonitor, update_apply]
    grind

/-! ## Lockwords -/

theorem writeWord (place : state.location self = old)
    (mine : ∀ owner count, state.lock obj = .thin owner count → owner = self)
    (thin : ∀ mon, state.lock obj ≠ .fat mon)
    (written : word = .unlocked ∧ held = 0 ∨ ∃ count ≤ maxCount, word = .thin self count ∧
      (held = count + 1 ∨ held = 0 ∧ count = 0 ∧
        ∃ mon stage, location = .inflate obj mon .contention stage))
    (contender : old.inflating = none)
    (owns : location.owns = old.owns)
    (inside : location.inside = old.inside)
    (asleep : location.asleep = old.asleep)
    (waitsOn : location.waitsOn = none ∧ old.waitsOn = none)
    (located : Located ((state.setLock obj word).setHeld self obj held) self location) :
    Invariant (((state.setLock obj word).setHeld self obj held).move self location) := by
  have others (thread : Thread) (ne : thread ≠ self) : Undisturbed thread state
      (((state.setLock obj word).setHeld self obj held).move self location) :=
    have unlocked : Undisturbed thread state (state.setLock obj word) :=
      .setLock (fun count owned => ne (mine thread count owned))
        (fun mon fat => absurd fat (thin mon)) (by grind)
    unlocked.trans ((Undisturbed.setHeld ne _ _).trans (.move ne _))
  have strangers (thread : Thread) (ne : thread ≠ self) : state.depth thread obj = 0 := by
    cases lock : state.lock obj with
    | unlocked => exact inv.words.unlocked obj thread lock
    | thin owner count =>
      exact inv.words.others obj owner count thread lock (mine owner count lock ▸ ne)
    | fat mon => exact absurd lock (thin mon)
  have inflated := inv.inflated
  refine inv.handover rfl rfl rfl (fun _ => rfl) (fun _ => rfl) (fun thread => ?_)
    (inv.sleepers.frame (fun thread => ?_) (fun _ => rfl) (fun _ => .refl _))
    (inv.owners.frame (fun other mon => ?_) (fun _ => rfl) (fun _ => rfl)
      (fun thread => ?_) (fun thread other mon fat => ?_)) ?_ ?_
    (State.move_self _ self _) (by rwa [located_move]) others
  case refine_6 =>
    obtain ⟨unlocked, thinly, others⟩ := inv.words
    constructor <;>
      simp only [move, State.depth, setHeld, setLock, update_apply] at * <;> grind [inflating]
  all_goals
    simp only [move, State.depth, setHeld, setLock, update_apply]
    grind

omit [DecidableEq Thread] in
theorem held_unlocked (unlocked : state.lock obj = .unlocked)
    (waitsOn : (state.location self).waitsOn = none) :
    state.held self obj = 0 := by
  simpa [State.depth, waitsOn] using inv.words.unlocked obj self unlocked

theorem take (place : state.location self = .swapFree obj) (unlocked : state.lock obj = .unlocked) :
    Invariant ((state.setLock obj (.thin self 0)).locked self obj) := by
  have held := inv.held_unlocked unlocked (by rw [place]; rfl)
  exact inv.writeWord place (by simp [unlocked]) (by simp [unlocked])
    (.inr ⟨0, Nat.zero_le _, rfl, .inl (congrArg (· + 1) held)⟩) rfl rfl rfl rfl ⟨rfl, rfl⟩ trivial

theorem takeContended (place : state.location self = .swapWord obj mon)
    (unlocked : state.lock obj = .unlocked) :
    Invariant ((state.setLock obj (.thin self 0)).move self
      (.inflate obj mon .contention .clearFlc)) := by
  obtain ⟨_, bound, _⟩ := inv.point place
  have held := inv.held_unlocked unlocked (by rw [place]; rfl)
  rw [← State.setHeld_self (state.setLock obj (.thin self 0)) self obj]
  refine inv.writeWord place (by simp [unlocked]) (by simp [unlocked])
    (.inr ⟨0, Nat.zero_le _, rfl, .inr ⟨held, rfl, mon, .clearFlc, rfl⟩⟩) rfl rfl rfl rfl ⟨rfl, rfl⟩
    ?_
  rw [State.setHeld_self]
  exact ⟨⟨update_self .., held⟩, { bound with }, by simp⟩

theorem recount
    (place : state.location self = .bump obj count ∨ state.location self = .drop obj count)
    (thin : state.lock obj = .thin self count) (bounded : new ≤ maxCount) :
    Invariant (((state.setLock obj (.thin self new)).setHeld self obj (new + 1)).move
      self .idle) := by
  rcases place with place | place <;>
    exact inv.writeWord place (by simp [thin]) (by simp [thin])
      (.inr ⟨new, bounded, rfl, .inl rfl⟩) rfl rfl rfl rfl ⟨rfl, rfl⟩ trivial

omit [DecidableEq Thread] in
theorem held_thin (thin : state.lock obj = .thin self count)
    (contender : ∀ mon stage, state.location self ≠ .inflate obj mon .contention stage)
    (waitsOn : (state.location self).waitsOn = none) :
    state.held self obj = count + 1 := by
  have counted := (inv.words.thin obj self count thin).2
  simp only [State.depth, waitsOn] at counted
  grind

theorem writeUnlocked (place : state.location self = .writeUnlocked obj) :
    Invariant (((state.setLock obj .unlocked).released self obj).move self (.testFlc obj)) := by
  have thin : state.lock obj = .thin self 0 := by simpa only [place, Located] using inv.located self
  have held := inv.held_thin thin (by simp [place]) (by rw [place]; rfl)
  exact inv.writeWord place (by simp [thin]) (by simp [thin])
    (.inl ⟨rfl, congrArg (· - 1) held⟩) rfl rfl rfl rfl ⟨rfl, rfl⟩ trivial

/-! ## Inflating and deflating -/

omit [DecidableEq Thread] in
theorem uninflated (bound : Bound state mon obj)
    (other : state.lock obj ≠ .fat mon) : Uninflated state mon := by
  intro named fat
  have same := (inv.inflated named mon fat).obj.symm.trans bound.obj
  exact other (Option.some.inj same ▸ fat)

end Invariant

end

omit [DecidableEq Obj] [DecidableEq Thread] in
theorem OwnWord.thin (word : OwnWord state self obj purpose) :
    ∃ count, state.lock obj = .thin self count := by
  cases purpose with
  | overflow | wait => exact ⟨_, word⟩
  | contention => exact ⟨_, word.1⟩
  | release => exact word.elim

structure Inflating (state : State Thread Obj) (thread : Thread) (obj : Obj) (mon : Nat)
    (purpose : Purpose) : Prop where
  word : OwnWord state thread obj purpose
  bound : Bound state mon obj
  owner : (state.monitor mon).owner = some thread
  uninflated : Uninflated state mon
  count : (state.monitor mon).count = 0

omit [DecidableEq Thread] in
theorem Invariant.inflating (inv : Invariant state)
    (place : state.location self = .inflate obj mon purpose stage) :
    Inflating state self obj mon purpose := by
  obtain ⟨word, bound, empty⟩ := inv.point place
  obtain ⟨count, thin⟩ := word.thin
  have owner := inv.owners.caller self mon (by simp [place])
  have uninflated := inv.uninflated bound (by simp [thin])
  exact ⟨word, bound, owner, uninflated, (inv.owners.other self mon uninflated owner).2⟩

section
variable (inv : Invariant state)
include inv

theorem Invariant.inflates (place : state.location self = .inflate obj mon purpose .writeWord)
    (roles : location.inside = none ∧ location.asleep = none ∧ location.waitsOn = none)
    (owns : location.owns = none ∨ location.owns = some mon)
    (counted : count + 1 = held + if location.owns = some mon then 1 else 0)
    (located : Located (((state.setLock obj (.fat mon)).setMonitor mon
      { state.monitor mon with count := count }).setHeld self obj held) self location) :
    Invariant ((((state.setLock obj (.fat mon)).setMonitor mon
      { state.monitor mon with count := count }).setHeld self obj held).move self location) := by
  obtain ⟨word, bound, owner, uninflated, _⟩ := inv.inflating place
  obtain ⟨recursions, thin⟩ := word.thin
  have others (thread : Thread) (ne : thread ≠ self) : Undisturbed thread state
      ((state.setLock obj (.fat mon)).setMonitor mon { state.monitor mon with count := count }) :=
    Undisturbed.trans (.setLock (by simp [thin, ne.symm]) (by simp [thin]) (by grind))
      (.setMonitor rfl (fun _ _ bound => bound.used) (by simp only [setLock]; grind))
  refine inv.handover rfl rfl rfl (fun other => ?_) (fun other => ?_) (fun thread => ?_)
    (inv.sleepers.frame (fun thread => ?_) (fun other => ?_) (fun other => ?_))
    ?_ ?_ ?_ (State.move_self _ self location) (by rwa [located_move])
    fun thread ne => (others thread ne).trans
      ((Undisturbed.setHeld ne _ _).trans (.move ne location))
  case refine_7 =>
    have inflated := inv.inflated
    obtain ⟨holder, caller, counts, other, free⟩ := inv.owners
    have words := inv.words.others obj self
    constructor <;>
      simp only [move, State.depth, setHeld, setLock, setMonitor,
        Uninflated, bound_iff, update_apply] at * <;>
      grind
  case refine_8 =>
    obtain ⟨unlocked, thinly, others⟩ := inv.words
    constructor <;>
      simp only [move, State.depth, setHeld, setLock, setMonitor, update_apply] at * <;> grind
  case refine_9 =>
    have inflated := inv.inflated
    simp only [move, setHeld, setLock, setMonitor, update_apply]
    grind
  all_goals
    simp only [move, setHeld, setLock, setMonitor, update_apply]
    grind

theorem Invariant.inflateOverflow
    (place : state.location self = .inflate obj mon .overflow .writeWord) :
    Invariant (((state.setLock obj (.fat mon)).setMonitor mon
      { state.monitor mon with count := 2 ^ countSize }).locked self obj) := by
  have held : state.held self obj = 2 ^ countSize :=
    inv.held_thin (inv.inflating place).word (by simp [place]) (by simp [place, Location.waitsOn])
  exact inv.inflates place ⟨rfl, rfl, rfl⟩ (.inl rfl) (congrArg (· + 1) held.symm) trivial

theorem Invariant.inflateWait
    (place : state.location self = .inflate obj mon (.wait recursions) .writeWord) :
    Invariant (((state.setLock obj (.fat mon)).setMonitor mon
      { state.monitor mon with count := recursions }).move self (.sleep obj mon)) := by
  have held : state.held self obj = recursions + 1 :=
    inv.held_thin (inv.inflating place).word (by simp [place]) (by simp [place, Location.waitsOn])
  have same := State.setHeld_self ((state.setLock obj (.fat mon)).setMonitor mon
    { state.monitor mon with count := recursions }) self obj
  rw [← same]
  refine inv.inflates place ⟨rfl, rfl, rfl⟩ (.inl rfl) held.symm (.inl ⟨?_, ?_⟩)
  · simp [setHeld, setLock]
  · rw [same]
    exact held ▸ Nat.succ_pos recursions

theorem Invariant.inflateContended
    (place : state.location self = .inflate obj mon .contention .writeWord) :
    Invariant ((state.setLock obj (.fat mon)).move self (.testWord obj mon)) := by
  obtain ⟨⟨thin, held⟩, bound, _, _, count⟩ := inv.inflating place
  have same : ((state.setLock obj (.fat mon)).setMonitor mon
      { state.monitor mon with count := 0 }).setHeld self obj 0 = state.setLock obj (.fat mon) := by
    have monitor : { state.monitor mon with count := 0 } = state.monitor mon := by rw [← count]
    rw [monitor, ← held]
    simp [setHeld, setLock]
  rw [← same]
  refine inv.inflates place ⟨rfl, rfl, rfl⟩ (.inr rfl) (by simp) ?_
  rw [same]
  exact ⟨fun holds => absurd holds (by simp [setLock, held]), { bound with }⟩

omit [DecidableEq Thread] in
theorem Invariant.deflating (place : state.location self = .deflate obj mon) (ne : thread ≠ self) :
    state.held thread obj = 0 := by
  obtain ⟨fat, _, owner, _, noWaiter⟩ := inv.point place
  by_contra holds
  by_cases waits : (state.location thread).waitsOn = some obj
  · -- a thread in `objectWait` is counted in `in_wait`
    have asleep : (state.location thread).asleep = some mon := by
      have point := inv.located thread
      cases location : state.location thread <;>
        simp_all [Location.waitsOn, Location.asleep, Located]
    have waiting := (inv.sleepers.census mon).pos asleep
    omega
  · have depth : 0 < state.depth thread obj := by
      simp only [State.depth, waits, if_false]
      omega
    have owned := inv.owners.holder thread obj mon fat depth
    exact ne (Option.some.inj (owned.symm.trans owner))

theorem Invariant.deflate (place : state.location self = .deflate obj mon) :
    Invariant (((state.setLock obj .unlocked).released self obj).move self (.retire obj mon)) := by
  have strangers (thread : Thread) (ne : thread ≠ self) := inv.deflating place ne
  obtain ⟨fat, holds, owner, count, noWaiter⟩ := inv.point place
  have held : state.held self obj = 1 := by
    have counted := inv.owners.inflated self obj mon fat owner
    simpa [State.depth, place, Location.waitsOn, count] using counted.symm
  have others (thread : Thread) (ne : thread ≠ self) :
      Undisturbed thread state (state.setLock obj .unlocked) :=
    .setLock (by simp [fat]) (fun _ _ => strangers thread ne) (by simp)
  refine inv.handover rfl rfl rfl (fun _ => rfl) (fun _ => rfl) (fun thread => ?_)
    (inv.sleepers.frame (fun thread => ?_) (fun _ => rfl) (fun _ => .refl _))
    ?_ ?_ ?_ (State.move_self _ self _) ?_
    fun thread ne => (others thread ne).trans ((Undisturbed.setHeld ne _ _).trans (.move ne _))
  case refine_3 =>
    have inflated := inv.inflated
    obtain ⟨holder, caller, counted, other, free⟩ := inv.owners
    constructor <;>
      simp only [move, State.depth, released, setHeld, setLock,
        Uninflated, bound_iff, update_apply] at * <;>
      grind
  case refine_4 =>
    obtain ⟨unlocked, thinly, others⟩ := inv.words
    constructor <;>
      simp only [move, State.depth, released, setHeld, setLock, update_apply] at * <;>
      grind
  case refine_5 =>
    have inflated := inv.inflated
    simp only [move, released, setHeld, setLock, update_apply]
    grind
  case refine_6 =>
    rw [located_move]
    refine ⟨noWaiter, fun other named => ?_⟩
    have inflated := inv.inflated
    simp only [released, setHeld, setLock, bound_iff, update_apply] at *
    grind
  all_goals
    simp only [move, released, setHeld, setLock, update_apply]
    grind

end

/-! ## Waiting and returning -/

omit [DecidableEq Obj] in
theorem Sleepers.startWait (sleepers : Sleepers state)
    (awake : (state.location self).asleep = none) (asleep : location.asleep = some mon) :
    Sleepers ((state.startWait mon self).move self location) := by
  obtain ⟨census, nodup, sleeping⟩ := sleepers
  constructor
  · intro other
    simp only [move, State.startWait, setMonitor]
    obtain rfl | same := eq_or_ne other mon
    · simpa using (census other).join (fun _ (ne : _ ≠ self) => by simp [ne]) (by simp [awake])
        (by simp [asleep])
    · simp only [update_of_ne same]
      refine (census other).congr fun thread => ?_
      grind
  · intro other
    simp only [move, State.startWait, setMonitor, update_apply]
    have distinct := nodup other
    split
    · subst other
      simp only [List.nodup_append]
      grind
    · exact distinct
  · simp only [move, State.startWait, setMonitor, update_apply]
    grind

omit [DecidableEq Obj] in
theorem Sleepers.endWait (sleepers : Sleepers state)
    (asleep : (state.location self).asleep = some mon) (awake : location.asleep = none)
    (absent : self ∉ waitSet) (sub : waitSet.Sublist (state.monitor mon).waitSet) :
    Sleepers ((state.endWait mon self oldCount waitSet).move self location) := by
  obtain ⟨census, nodup, sleeping⟩ := sleepers
  constructor
  · intro other
    simp only [move, State.endWait, setMonitor]
    obtain rfl | same := eq_or_ne other mon
    · simpa using (census other).leave (fun _ (ne : _ ≠ self) => by simp [ne]) asleep
        (by simp [awake])
    · simp only [update_of_ne same]
      refine (census other).congr fun thread => ?_
      grind
  · intro other
    simp only [move, State.endWait, setMonitor, update_apply]
    split
    · exact (nodup mon).sublist sub
    · exact nodup other
  · have subset := sub.subset
    simp only [move, State.endWait, setMonitor, update_apply]
    grind

section
variable (inv : Invariant state)
include inv

theorem Invariant.startBlock (place : state.location self = .beginWait obj mon) :
    Invariant ((state.startWait mon self).move self
      (.blocked obj mon (state.monitor mon).count)) := by
  obtain ⟨contends, bound, uninflated, _⟩ := inv.point place
  have owner := inv.owners.caller self mon (by simp [place])
  have count := (inv.owners.other self mon uninflated owner).2
  have held : state.held self obj = 0 := by
    by_contra holds
    obtain ⟨other, fat⟩ := contends (Nat.pos_of_ne_zero holds)
    have same := inv.cache.bound_eq (inv.inflated obj other fat) bound
    exact uninflated obj (same ▸ fat)
  refine inv.writeMonitor place rfl rfl (by grind) rfl rfl (by simp [Location.waitsOn])
    (inv.sleepers.startWait (by rw [place]; rfl) rfl) ?_ ⟨held, ?_, count⟩
  · obtain ⟨holder, caller, inflated, other, free⟩ := inv.owners
    constructor <;>
      simp only [move, State.depth, setMonitor, Uninflated, update_apply] at * <;> grind
  · simpa [bound_iff] using bound

theorem Invariant.startSleep (place : state.location self = .sleep obj mon)
    (owner : (state.monitor mon).owner = some self) :
    Invariant ((state.startWait mon self).move self
      (.waiting obj mon (state.monitor mon).count)) := by
  have located := inv.point place
  obtain ⟨fat, holds⟩ := located.resolve_right (not_not_intro owner)
  have bound := inv.inflated obj mon fat
  have held : state.held self obj = (state.monitor mon).count + 1 := by
    have counted := inv.owners.inflated self obj mon fat owner
    simpa [State.depth, place, Location.waitsOn] using counted.symm
  refine inv.writeMonitor place rfl rfl (by grind) rfl rfl (by grind)
    (inv.sleepers.startWait (by rw [place]; rfl) rfl) ?_ ⟨fat, held, ?_⟩
  · have bounds := inv.inflated
    obtain ⟨holder, caller, inflated, other, free⟩ := inv.owners
    constructor <;>
      simp only [move, State.depth, setMonitor, Uninflated, bound_iff, update_apply] at * <;> grind
  · simpa [bound_iff] using bound

theorem Invariant.endBlock (place : state.location self = .blocked obj mon oldCount)
    (free : (state.monitor mon).owner = none) (absent : self ∉ waitSet)
    (sub : waitSet.Sublist (state.monitor mon).waitSet) :
    Invariant ((state.endWait mon self oldCount waitSet).move self (.testWord obj mon)) := by
  obtain ⟨held, bound, rfl⟩ := inv.point place
  refine inv.writeMonitor place rfl rfl (by grind) rfl rfl (by simp [Location.waitsOn])
    (inv.sleepers.endWait (by rw [place]; rfl) rfl absent sub) ?_
    ⟨fun holds => absurd holds (by simp [held]), ?_⟩
  · have bounds := inv.inflated
    obtain ⟨holder, caller, inflated, other, free⟩ := inv.owners
    constructor <;>
      simp only [move, State.depth, setMonitor, Uninflated, bound_iff, update_apply] at * <;> grind
  · simpa [bound_iff] using bound

theorem Invariant.endSleep (place : state.location self = .waiting obj mon oldCount)
    (free : (state.monitor mon).owner = none) (absent : self ∉ waitSet)
    (sub : waitSet.Sublist (state.monitor mon).waitSet) :
    Invariant ((state.endWait mon self oldCount waitSet).move self .idle) := by
  obtain ⟨fat, held, bound⟩ := inv.point place
  refine inv.writeMonitor place rfl rfl (by grind) rfl rfl (by grind)
    (inv.sleepers.endWait (by rw [place]; rfl) rfl absent sub) ?_ trivial
  have bounds := inv.inflated
  obtain ⟨holder, caller, inflated, other, free⟩ := inv.owners
  constructor <;>
    simp only [move, State.depth, setMonitor, Uninflated, bound_iff, update_apply] at * <;> grind

theorem Invariant.complete (place : state.location self = .testWord obj mon)
    (fat : state.lock obj = .fat named) : Invariant (state.locked self obj) := by
  obtain ⟨_, bound⟩ := inv.point place
  have same := inv.cache.bound_eq (inv.inflated obj named fat) bound
  refine inv.handover rfl rfl rfl (fun _ => rfl) (fun _ => rfl) (fun thread => ?_)
    (inv.sleepers.frame (fun thread => ?_) (fun _ => rfl) (fun _ => .refl _)) ?_
    (inv.words.frame rfl (fun thread obj _ => ?_) (fun thread obj mon stage => ?_))
    inv.inflated (State.move_self _ self _) trivial
    fun thread ne => (Undisturbed.setHeld ne _ _).trans (.move ne _)
  case refine_3 =>
    have bounds := inv.inflated
    obtain ⟨holder, caller, inflated, other, free⟩ := inv.owners
    constructor <;>
      simp only [move, State.depth, State.locked, setHeld, Uninflated,
        bound_iff, update_apply] at * <;> grind
  all_goals
    simp only [move, State.depth, State.locked, setHeld, update_apply]
    grind

end

end JamVM.Lock.ThinLock
