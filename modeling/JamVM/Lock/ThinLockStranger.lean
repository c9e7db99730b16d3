import JamVM.Lock.ThinLock

/-! # Unlocking by a thread that is not the owner

Unbalanced `monitorexit` instructions and `MonitorExit` of the native interface can ask for
the release of a lock the caller does not hold. Nothing is assumed here about the calls made
before, so the invariant of well-behaved threads is not at hand.
-/

namespace JamVM.Lock.ThinLock

open Option
open ThinLock.State (allocMonitor setEntering setWaitSet)
open Function
open TransitionSystem

attribute [local simp] State.setMonitor State.move

variable {Thread : Type u} {Obj : Type v} [DecidableEq Thread] [DecidableEq Obj]
  {state next : State Thread Obj} {self thread : Thread} {obj : Obj} {mon : Nat}

def State.Holds (state : State Thread Obj) (thread : Thread) (obj : Obj) : Prop :=
  match state.lock obj with
  | .unlocked => False
  | .thin owner _ => owner = thread
  | .fat mon => (state.monitor mon).owner = some thread

instance : Decidable (state.Holds thread obj) := by
  unfold State.Holds
  split <;> infer_instance

def Location.inflater : Location Obj → Option Nat
  | inflate _ mon _ _ | readEntered _ mon | entered _ mon _ | testWord _ mon | setFlc _ mon
  | swapWord _ mon | beginWait _ mon => some mon
  | _ => none

def Inflaters (state : State Thread Obj) : Prop :=
  ∀ thread mon, (state.location thread).inflater = some mon →
    (state.monitor mon).owner = some thread

/-! ## Steps of other threads -/

structure Apart (thread : Thread) (state next : State Thread Obj) : Prop where
  location : next.location thread = state.location thread
  owner : ∀ mon, (next.monitor mon).owner = some thread ↔ (state.monitor mon).owner = some thread
  thin : ∀ obj count, next.lock obj = .thin thread count → state.lock obj = .thin thread count
  fat : ∀ obj mon, next.lock obj = .fat mon →
    state.lock obj = .fat mon ∨ (state.monitor mon).owner ≠ some thread

namespace Apart

omit [DecidableEq Thread] [DecidableEq Obj] in
theorem trans (first : Apart thread state middle)
    (second : Apart thread middle next) : Apart thread state next where
  location := second.location.trans first.location
  owner mon := (second.owner mon).trans (first.owner mon)
  thin obj count word := first.thin obj count (second.thin obj count word)
  fat obj mon word := (second.fat obj mon word).elim (first.fat obj mon) fun stranger =>
    .inr (mt (first.owner mon).mpr stranger)

omit [DecidableEq Thread] [DecidableEq Obj] in
theorem of_owner (location : next.location thread = state.location thread)
    (lock : next.lock = state.lock)
    (owner : ∀ mon, (next.monitor mon).owner = some thread ↔
      (state.monitor mon).owner = some thread) : Apart thread state next where
  location := location
  owner := owner
  thin _ _ word := lock ▸ word
  fat _ _ word := .inl (lock ▸ word)

omit [DecidableEq Obj] in
theorem move (ne : thread ≠ self) (location : Location Obj) :
    Apart thread state (state.move self location) :=
  .of_owner (update_of_ne ne _ _) rfl fun _ => .rfl

theorem setHeld (count : Nat) : Apart thread state (state.setHeld self obj count) :=
  .of_owner rfl rfl fun _ => .rfl

omit [DecidableEq Thread] [DecidableEq Obj] in
theorem setMonitor (owner : monitor.owner = some thread ↔ (state.monitor mon).owner = some thread) :
    Apart thread state (state.setMonitor mon monitor) := by
  refine .of_owner rfl rfl fun other => ?_
  simp only [State.setMonitor, update_apply]
  split
  · rename_i same
    rw [same, owner]
  · rfl

omit [DecidableEq Thread] in
theorem setLock (thin : ∀ count, word ≠ .thin thread count)
    (fat : ∀ mon, word = .fat mon → (state.monitor mon).owner ≠ some thread) :
    Apart thread state (state.setLock obj word) where
  location := rfl
  owner _ := .rfl
  thin other count isWord := by
    simp only [State.setLock, update_apply] at isWord
    split at isWord
    · exact absurd isWord (thin count)
    · exact isWord
  fat other mon isWord := by
    simp only [State.setLock, update_apply] at isWord
    split at isWord
    · exact .inr (fat mon isWord)
    · exact .inl isWord

omit [DecidableEq Thread] in
theorem findHashEntry
    (isFound : state.findHashEntry obj order = some found) : Apart thread state found.1 := by
  have allocated : Apart thread state (state.allocMonitor obj).1 := by
    unfold allocMonitor
    split
    all_goals
      refine .of_owner rfl rfl fun other => ?_
      simp only [State.setMonitor, update_apply]
      split
      · rename_i same
        rw [same]
      · rfl
  simp only [State.findHashEntry] at isFound
  split at isFound
  · split at isFound <;> cases isFound
    · exact .setMonitor .rfl
    · exact .of_owner rfl rfl fun _ => .rfl
  · split at isFound
    · obtain ⟨scavenged, isScavenged, rfl⟩ := map_eq_some_iff.mp isFound
      obtain ⟨-, rfl⟩ := of_guard isScavenged
      exact allocated.trans (.of_owner rfl rfl fun _ => .rfl)
    · cases isFound
      exact allocated.trans (.of_owner rfl rfl fun _ => .rfl)

omit [DecidableEq Obj] in
theorem monitorLock (ne : thread ≠ self) (locked : state.monitorLock mon self = some next) :
    Apart thread state next := by
  simp only [State.monitorLock] at locked
  split at locked
  · cases locked
    exact .setMonitor .rfl
  · obtain ⟨free, rfl⟩ := of_guard locked
    exact .setMonitor (by simp [free, ne.symm])

omit [DecidableEq Obj] in
theorem monitorUnlock (ne : thread ≠ self) : Apart thread state (state.monitorUnlock mon self) := by
  simp only [State.monitorUnlock]
  split
  · rename_i own
    split
    · exact .setMonitor (by simp [own, ne.symm])
    · exact .setMonitor .rfl
  · exact .of_owner rfl rfl fun _ => .rfl

end Apart

omit [DecidableEq Obj] in
theorem monitorLock_owner (locked : state.monitorLock mon self = some next) :
    (next.monitor mon).owner = some self := by
  simp only [State.monitorLock] at locked
  split at locked
  · cases locked
    simpa
  · obtain ⟨-, rfl⟩ := of_guard locked
    simp

/-- What a step does for the other threads, and for its own if that one inflates a lock. -/
structure Turn (caller : Thread) (state next : State Thread Obj) : Prop where
  apart : ∀ thread, thread ≠ caller → Apart thread state next
  inflater : ∀ mon, (next.location caller).inflater = some mon →
    (next.monitor mon).owner = some caller

namespace Turn

variable {middle : State Thread Obj} {location : Location Obj}
  (apart : ∀ thread, thread ≠ self → Apart thread state middle)
include apart

omit [DecidableEq Obj] in
theorem move (inflater : ∀ mon, location.inflater = some mon →
      (middle.monitor mon).owner = some self) : Turn self state (middle.move self location) where
  apart thread ne := (apart thread ne).trans (.move ne location)
  inflater := by simpa using inflater

omit [DecidableEq Obj] in
theorem leave (out : location.inflater = none) : Turn self state (middle.move self location) :=
  .move apart (by simp [out])

theorem count {count : Nat} (out : location.inflater = none) :
    Turn self state ((middle.setHeld self obj count).move self location) :=
  .leave (fun thread ne => (apart thread ne).trans (.setHeld count)) out

omit apart in
omit [DecidableEq Obj] in
theorem endWait (free : (state.monitor mon).owner = none)
    (inflater : ∀ other, location.inflater = some other → other = mon) :
    Turn self state ((state.endWait mon self oldCount waitSet).move self location) := by
  refine .move (fun thread ne => .setMonitor (by simp [free, ne.symm])) fun other named => ?_
  rw [inflater other named]
  simp [State.endWait]

end Turn

theorem proceed_turn (inflaters : Inflaters state)
    (ran : proceed state self order = some next) : Turn self state next := by
  have inflater := inflaters self
  have same (thread : Thread) (_ : thread ≠ self) : Apart thread state state :=
    .of_owner rfl rfl fun _ => .rfl
  have ownWord (obj : Obj) (count : Nat) (thread : Thread) (ne : thread ≠ self) :
      Apart thread state (state.setLock obj (.thin self count)) :=
    .setLock (by simp [ne.symm]) (by simp)
  have unlocked (obj : Obj) (thread : Thread) (_ : thread ≠ self) :
      Apart thread state (state.setLock obj .unlocked) :=
    .setLock (by simp) (by simp)
  have entering (mon : Nat) (entering : Option Nat) (thread : Thread) (_ : thread ≠ self) :
      Apart thread state (state.setEntering mon entering) :=
    .setMonitor .rfl
  have notified (mon : Nat) (waitSet : List Thread) (thread : Thread) (_ : thread ≠ self) :
      Apart thread state (state.setWaitSet mon waitSet) :=
    .setMonitor .rfl
  have flc (obj : Obj) (bit : Bool) (thread : Thread) (_ : thread ≠ self) :
      Apart thread state (state.writeFlc obj bit) :=
    .of_owner rfl rfl fun _ => .rfl
  cases place : state.location self
  all_goals
    simp only [proceed, place] at ran
    simp only [place, Location.inflater] at inflater
  case idle => cases ran
  case lookUp purpose =>
    obtain ⟨found, isFound, rfl⟩ := map_eq_some_iff.mp ran
    exact .leave (fun _ _ => .findHashEntry isFound) (by cases purpose <;> rfl)
  case acquire | block =>
    obtain ⟨locked, isLocked, rfl⟩ := map_eq_some_iff.mp ran
    refine .move (fun _ ne => .monitorLock ne isLocked) ?_
    rintro _ ⟨⟩
    exact monitorLock_owner isLocked
  case tryLock =>
    split at ran <;> cases ran
    · exact .leave (fun _ ne => .monitorLock ne ‹_›) rfl
    · exact .leave same rfl
  case unlockNotifier | unlockDeflated =>
    cases ran
    exact .leave (fun _ ne => .monitorUnlock ne) rfl
  case unlockFat =>
    cases ran
    exact .count (fun _ ne => .monitorUnlock ne) rfl
  case swapFree =>
    split at ran <;> cases ran
    · exact .count (ownWord _ _) rfl
    · exact .leave same rfl
  case bump | drop =>
    cases ran
    exact .count (ownWord _ _) rfl
  case writeUnlocked | deflate =>
    cases ran
    exact .count (unlocked _) rfl
  case enter | leave | retire =>
    split at ran <;> cases ran
    · exact .leave (entering _ _) rfl
    · exact .leave same rfl
  case entered =>
    split at ran <;> cases ran
    · refine .move (entering _ _) ?_
      rintro _ ⟨⟩
      simpa [setEntering] using inflater _ rfl
    · exact .move same inflater
  case notify =>
    split at ran <;> cases ran
    · exact .leave (notified _ _) rfl
    · exact .leave same rfl
  case testWord =>
    split at ran <;> cases ran
    · exact .count same rfl
    · exact .move same inflater
  case setFlc =>
    cases ran
    exact .move (flc _ _) inflater
  case readEntered =>
    cases ran
    exact .move same inflater
  case swapWord =>
    split at ran <;> cases ran
    · exact .move (ownWord _ _) inflater
    · exact .move same inflater
  case beginWait =>
    split at ran <;> cases ran
    · exact .leave (fun _ ne => .setMonitor (by simp [*, ne.symm])) rfl
    · exact .move same inflater
  case sleep =>
    split at ran <;> cases ran
    · exact .leave (fun _ ne => .setMonitor (by simp [*, ne.symm])) rfl
    · exact .leave same rfl
  case blocked | waiting =>
    obtain ⟨⟨free, -⟩, rfl⟩ := of_guard ran
    exact .endWait free (by grind [Location.inflater])
  case inflate obj mon purpose stage =>
    cases stage <;> dsimp only at ran
    · cases ran
      exact .move (flc _ _) inflater
    · split at ran <;> cases ran
      · refine .move (notified _ _) ?_
        rintro _ ⟨⟩
        simpa [setWaitSet] using inflater _ rfl
      · exact .move same inflater
    · cases ran
      have written (thread : Thread) (ne : thread ≠ self) :
          Apart thread state (state.setLock obj (.fat mon)) :=
        .setLock (by simp) fun other isWord => by
          obtain rfl := LockWord.fat.inj isWord
          simp [inflater mon rfl, ne.symm]
      have recounted (count : Nat) (thread : Thread) (ne : thread ≠ self) :
          Apart thread state ((state.setLock obj (.fat mon)).setMonitor mon
            { state.monitor mon with count := count }) :=
        (written thread ne).trans (.setMonitor .rfl)
      cases purpose
      · exact .count (recounted _) rfl
      · exact .move written inflater
      · exact .move written inflater
      · exact .leave (recounted _) rfl
  case readShape purpose =>
    split at ran <;> cases ran
    · exact .leave same (by cases purpose <;> rfl)
    · exact .leave same rfl
  all_goals
    repeat' split at ran
    all_goals
      cases ran
      exact .leave same rfl

def Action.caller : Action Thread Obj → Thread
  | lock self _ | unlock self _ | wait self _ | proceed self _ | giveUp self _ => self

theorem step_turn (inflaters : Inflaters state)
    (ran : step state action = some next) : Turn action.caller state next := by
  have same (thread self : Thread) (_ : thread ≠ self) : Apart thread state state :=
    .of_owner rfl rfl fun _ => .rfl
  cases action with
  | lock | unlock | wait =>
    obtain ⟨-, rfl⟩ := of_guard ran
    exact .leave (same · _) rfl
  | proceed => exact proceed_turn inflaters ran
  | giveUp =>
    simp only [step, giveUp] at ran
    split at ran
    case h_2 =>
      cases ran
      exact .leave (same · _) rfl
    case h_4 => cases ran
    all_goals
      obtain ⟨free, rfl⟩ := of_guard ran
      exact .endWait free (by grind [Location.inflater])

theorem step_inflaters (inflaters : Inflaters state)
    (ran : step state action = some next) : Inflaters next := by
  intro thread mon isInflater
  have turn := step_turn inflaters ran
  obtain rfl | same := eq_or_ne thread action.caller
  · exact turn.inflater mon isInflater
  · have apart := turn.apart thread same
    rw [apart.location] at isInflater
    exact (apart.owner mon).mpr (inflaters thread mon isInflater)

theorem inflaters_reachable (reachable : (system Thread Obj).Reachable state) :
    Inflaters state := by
  refine reachable.invariant Inflaters ?_ fun _ _ _ inflaters _ => step_inflaters inflaters
  rintro _ rfl _ _ isInflater
  cases isInflater

/-! ## The call -/

def unlockCall (pre : State Thread Obj) (self : Thread) (obj : Obj) :
    TransitionSystem (State Thread Obj) (Action Thread Obj) where
  initial state := state = pre.move self (.readOwn obj)
  step state action := if state.location self = .idle then none else step state action

/-- When the caller has found `count` and `entering` to be 0, it does not find `in_wait` so. -/
def InUse (self : Thread) (state : State Thread Obj) : Action Thread Obj → Prop
  | .proceed thread _ => thread = self →
    match state.location self with
    | .inspectWaits _ mon => (state.monitor mon).inWait ≠ 0
    | _ => True
  | _ => True

instance (action : Action Thread Obj) : Decidable (InUse self state action) := by
  unfold InUse
  repeat' split
  all_goals infer_instance

def Stranger (state : State Thread Obj) (self : Thread) (obj : Obj) : Prop :=
  match state.location self with
  | .idle => True
  | .readOwn other => other = obj ∧ ¬ state.Holds self obj
  | .inspect _ mon | .inspectEntering _ mon | .inspectWaits _ mon | .unlockFat _ mon =>
    (state.monitor mon).owner ≠ some self
  | _ => False

omit [DecidableEq Thread] [DecidableEq Obj] in
theorem Apart.holds (apart : Apart thread state next) (holds : next.Holds thread obj) :
    state.Holds thread obj := by
  unfold State.Holds at holds
  split at holds
  · exact holds.elim
  · rename_i word
    subst holds
    simp [State.Holds, apart.thin _ _ word]
  · rename_i mon word
    have owner := (apart.owner mon).mp holds
    rcases apart.fat obj mon word with same | stranger
    · simpa [State.Holds, same]
    · exact absurd owner stranger

omit [DecidableEq Thread] [DecidableEq Obj] in
theorem Apart.stranger (apart : Apart self state next) (stranger : Stranger state self obj) :
    Stranger next self obj := by
  simp only [Stranger, apart.location] at stranger ⊢
  cases place : state.location self <;> simp only [place] at stranger ⊢
  case readOwn => exact ⟨stranger.1, mt apart.holds stranger.2⟩
  case inspect | inspectEntering | inspectWaits | unlockFat =>
    exact mt (apart.owner _).mp stranger

theorem Stranger.proceed (stranger : Stranger state self obj) (busy : state.location self ≠ .idle)
    (order : List Nat) (inUse : InUse self state (.proceed self order)) :
    ∃ next, proceed state self order = some next ∧ next.lock = state.lock ∧
      next.monitor = state.monitor ∧ (∀ thread, thread ≠ self → next.held thread =
        state.held thread ∧ next.location thread = state.location thread) ∧
      Stranger next self obj := by
  have moved (location : Location Obj) (kept : Stranger (state.move self location) self obj) :
      ∃ next, some (state.move self location) = some next ∧ next.lock = state.lock ∧
        next.monitor = state.monitor ∧ (∀ thread, thread ≠ self → next.held thread =
          state.held thread ∧ next.location thread = state.location thread) ∧
        Stranger next self obj :=
    ⟨_, rfl, rfl, rfl, fun thread ne => ⟨rfl, update_of_ne ne _ _⟩, kept⟩
  simp only [Stranger] at stranger
  cases place : state.location self <;> simp only [place] at stranger
  case idle => exact absurd place busy
  case readOwn =>
    obtain ⟨rfl, stranger⟩ := stranger
    simp only [ThinLock.proceed, place]
    split
    · rename_i owner count word
      rw [State.Holds, word] at stranger
      rw [if_neg stranger]
      exact moved .idle (by simp [Stranger])
    · rename_i mon word
      rw [State.Holds, word] at stranger
      exact moved _ (by simpa [Stranger] using stranger)
    · exact moved .idle (by simp [Stranger])
  case inspect | inspectEntering =>
    simp only [ThinLock.proceed, place]
    split <;> exact moved _ (by simpa [Stranger] using stranger)
  case inspectWaits =>
    simp only [InUse, place] at inUse
    simp only [ThinLock.proceed, place]
    rw [if_neg (inUse trivial)]
    exact moved _ (by simpa [Stranger] using stranger)
  case unlockFat =>
    simp only [ThinLock.proceed, place]
    rw [State.monitorUnlock, if_neg stranger]
    refine ⟨_, rfl, rfl, rfl, fun thread ne => ⟨?_, update_of_ne ne _ _⟩, ?_⟩
    · exact update_of_ne ne _ _
    · simp [Stranger]

theorem unlockCall_invariant
    (reachable : (system Thread Obj).Reachable pre) (idle : pre.location self = .idle)
    (stranger : ¬ pre.Holds self obj)
    (called : (unlockCall pre self obj).ReachableWhile (InUse self) state) :
    Inflaters state ∧ Stranger state self obj := by
  refine called.invariant (fun state => Inflaters state ∧ Stranger state self obj) ?_ ?_
  · rintro _ rfl
    have entered : (system Thread Obj).step pre (.unlock self obj) =
        some (pre.move self (.readOwn obj)) := if_pos idle
    refine ⟨inflaters_reachable (.step reachable trivial entered), ?_⟩
    simp only [Stranger, State.move, update_self]
    exact ⟨trivial, stranger⟩
  · rintro current action next ⟨inflaters, stranger⟩ inUse ran
    simp only [unlockCall] at ran
    split at ran
    · cases ran
    rename_i busy
    refine ⟨step_inflaters inflaters ran, ?_⟩
    obtain rfl | ne := eq_or_ne self action.caller
    · cases action with
      | lock | unlock | wait =>
        obtain ⟨idle, -⟩ := of_guard ran
        exact absurd idle busy
      | proceed self order =>
        obtain ⟨res, isResult, -, -, -, kept⟩ := stranger.proceed busy order inUse
        obtain rfl := some.inj (isResult.symm.trans ran)
        exact kept
      | giveUp =>
        simp only [Stranger, Action.caller] at stranger
        simp only [step, giveUp] at ran
        split at ran <;> simp_all
    · exact ((step_turn inflaters ran).apart self ne).stranger stranger

/-- `objectUnlock` by a thread that does not hold the object always goes on, and none of its
steps changes a lockword, a monitor or another thread. -/
theorem objectUnlock_stranger {pre : State Thread Obj}
    (reachable : (system Thread Obj).Reachable pre) (idle : pre.location self = .idle)
    (stranger : ¬ pre.Holds self obj)
    (called : (unlockCall pre self obj).ReachableWhile (InUse self) state)
    (busy : state.location self ≠ .idle) (order : List Nat)
    (inUse : InUse self state (.proceed self order)) :
    ∃ next, step state (.proceed self order) = some next ∧ next.lock = state.lock ∧
      next.monitor = state.monitor ∧
      (∀ thread, thread ≠ self → next.held thread = state.held thread ∧
        next.location thread = state.location thread) ∧
      ∀ thread other, next.Holds thread other ↔ state.Holds thread other := by
  obtain ⟨-, stranger⟩ := unlockCall_invariant reachable idle stranger called
  obtain ⟨next, ran, lock, monitor, others, -⟩ := stranger.proceed busy order inUse
  refine ⟨next, ran, lock, monitor, others, fun thread other => ?_⟩
  rw [State.Holds, State.Holds, lock, monitor]

def inflateByWait (more : List (Action Nat Nat)) : List (Action Nat Nat) :=
  .lock 0 0 :: .proceed 0 [] :: more ++
    .wait 0 0 :: .replicate 7 (.proceed 0 []) ++ [.giveUp 0 false]

/-- Thread 0 has locked object 0 twice, so that thread 1 finds its monitor in use. -/
theorem objectUnlock_stranger_nested :
    ∃ pre state next : State Nat Nat, (system Nat Nat).Reachable pre ∧
      (unlockCall pre 1 0).ReachableWhile (InUse 1) state ∧
      state.location 1 = .unlockFat 0 0 ∧ step state (.proceed 1 []) = some next ∧
      next.monitor = state.monitor ∧ next.Holds 0 0 := by
  have run : ((system Nat Nat).run (start _ _)
      (inflateByWait (.lock 0 0 :: .replicate 3 (.proceed 0 [])))).any (fun pre =>
        (pre.location 1 = .idle ∧ ¬ pre.Holds 1 0) ∧
          ((unlockCall pre 1 0).runWhile (InUse 1) (pre.move 1 (.readOwn 0))
            (.replicate 2 (.proceed 1 []))).any (fun state =>
              state.location 1 = .unlockFat 0 0 ∧ state.Holds 0 0 ∧
                InUse 1 state (.proceed 1 []))) = true := by
    decide +kernel
  obtain ⟨pre, executed, holds⟩ := (any_eq_true _ _).mp run
  obtain ⟨⟨idle, stranger⟩, holds⟩ := of_decide_eq_true holds
  obtain ⟨state, called, holds⟩ := (any_eq_true _ _).mp holds
  obtain ⟨place, owner, inUse⟩ := of_decide_eq_true holds
  have reachable := TransitionSystem.Reachable.of_run (.initial rfl) executed
  have called := TransitionSystem.ReachableWhile.of_runWhile (.initial rfl) called
  obtain ⟨next, ran, -, monitor, -, kept⟩ := objectUnlock_stranger reachable idle stranger
    called (by simp [place]) [] inUse
  exact ⟨pre, state, next, reachable, called, place, ran, monitor, (kept 0 0).mpr owner⟩

/-- Thread 0 has locked object 0 once. Thread 1 unlocks the object, which deflates the lock,
and locks it. -/
theorem objectUnlock_steals : ∃ pre post : State Nat Nat, (system Nat Nat).Reachable pre ∧
      pre.location 1 = .idle ∧ pre.Holds 0 0 ∧ ¬ pre.Holds 1 0 ∧
      pre.held 1 0 = 0 ∧ (system Nat Nat).run pre
        (.unlock 1 0 :: .replicate 7 (.proceed 1 []) ++ [.lock 1 0, .proceed 1 []]) = some post ∧
      ¬ post.Holds 0 0 ∧ post.held 0 0 = 1 ∧ post.Holds 1 0 ∧ post.held 1 0 = 1 ∧
      (post.monitor 0).entering = none := by
  have run : ((system Nat Nat).run (start _ _) (inflateByWait [])).any (fun pre =>
      (pre.location 1 = .idle ∧ pre.Holds 0 0 ∧ ¬ pre.Holds 1 0 ∧
        pre.held 1 0 = 0) ∧ ((system Nat Nat).run pre
          (.unlock 1 0 :: .replicate 7 (.proceed 1 []) ++ [.lock 1 0, .proceed 1 []])).any
        (fun post => ¬ post.Holds 0 0 ∧ post.held 0 0 = 1 ∧ post.Holds 1 0 ∧
          post.held 1 0 = 1 ∧ (post.monitor 0).entering = none)) = true := by
    decide +kernel
  obtain ⟨pre, executed, holds⟩ := (any_eq_true _ _).mp run
  obtain ⟨⟨idle, owner, stranger, unheld⟩, holds⟩ := of_decide_eq_true holds
  obtain ⟨post, unlocked, holds⟩ := (any_eq_true _ _).mp holds
  exact ⟨pre, post, .of_run (.initial rfl) executed, idle, owner, stranger, unheld, unlocked,
    of_decide_eq_true holds⟩

end JamVM.Lock.ThinLock
