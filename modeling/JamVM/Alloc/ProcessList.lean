import JamVM.Alloc.ObjectList

/-! # Interleaving the collector and a processing thread

`PROCESS_OBJECT_LIST` runs in the finaliser and reference handler threads. It
holds the list lock except while it waits for a notification and while it
executes the process method of an object; the collector adds and clears list
entries in exactly those windows.
-/

namespace JamVM.Alloc.ProcessList

open ObjectList List

/-- An object together with the number of additions made before it. The serial
tells two additions of one object apart. -/
structure Addition (Object : Type u) where
  serial : Nat
  object : Object
  deriving DecidableEq

inductive Phase (Element : Type u)
  | waiting
  | picking
  | executing (element : Element)
  deriving DecidableEq

structure State (Object : Type u) where
  queue : ObjectList (Addition Object)
  phase : Phase (Addition Object)
  added : List (Addition Object)
  cleared : List (Addition Object)
  handed : List (Addition Object)
  completed : List (Addition Object)

inductive Action (Object : Type u)
  | add (object : Object)
  | clear (unmarked : Object → Bool)
  | process

variable {Object : Type u}

def initialState : State Object where
  queue := .empty
  phase := .waiting
  added := []
  cleared := []
  handed := []
  completed := []

def loopTest (state : State Object) : State Object :=
  let queue := { state.queue with start := state.queue.start + 1 }
  if queue.start ≠ queue.stop then
    { state with queue := queue, phase := .picking }
  else
    { state with
      queue := { queue with start := queue.size, stop := 0 }
      phase := .waiting }

attribute [local simp] loopTest

def process (state : State Object) : State Object :=
  match state.phase with
  | .waiting =>
    -- The wait returned, possibly without any new entry.
    if state.queue.start = state.queue.size ∧ state.queue.stop = 0 then
      state
    else
      { state with phase := .picking }
  | .picking =>
    let queue := { state.queue with start := state.queue.start % state.queue.size }
    match queue.list queue.start with
    | none => loopTest { state with queue := queue }
    | some element =>
      { state with
        queue := queue
        phase := .executing element
        handed := state.handed ++ [element] }
  | .executing element => loopTest { state with completed := state.completed ++ [element] }

def Phase.Locked : Phase Element → Prop
  | .picking => True
  | _ => False

instance (phase : Phase Element) : Decidable phase.Locked :=
  match phase with
  | .picking => isTrue trivial
  | .waiting => isFalse not_false
  | .executing _ => isFalse not_false

def Phase.Executing : Phase Element → Prop
  | .executing _ => True
  | _ => False

instance (phase : Phase Element) : Decidable phase.Executing :=
  match phase with
  | .executing _ => isTrue trivial
  | .waiting => isFalse not_false
  | .picking => isFalse not_false

def add (state : State Object) (object : Object) : State Object :=
  let element : Addition Object := ⟨state.added.length, object⟩
  { state with
    queue := state.queue.addToObjectList element
    added := state.added ++ [element] }

def clear (state : State Object) (unmarked : Object → Bool) : State Object :=
  { state with
    queue := state.queue.clearUnmarked fun element => unmarked element.object
    cleared := state.cleared ++ state.queue.iterateObjectList.reduceOption.filter fun element =>
        unmarked element.object }

def step (state : State Object) : Action Object → Option (State Object)
  | .add object => if state.phase.Locked then none else some (add state object)
  | .clear unmarked => if state.phase.Locked then none else some (clear state unmarked)
  | .process => some (process state)

def system (Object : Type u) : TransitionSystem (State Object) (Action Object) where
  initial state := state = initialState
  step := step

def outstanding [DecidableEq Object] (state : State Object) : List (Addition Object) :=
  state.added.filter fun element => element ∉ state.completed ∧ element ∉ state.cleared

structure Faithful [DecidableEq Object] (state : State Object) : Prop where
  added_nodup : state.added.Nodup
  handed_sublist : state.handed.Sublist state.added
  visits : state.queue.iterateObjectList.reduceOption = outstanding state
  accounted : ∀ element ∈ state.added, element ∈ state.queue.iterateObjectList.reduceOption ∨
      element ∈ state.handed ∨ element ∈ state.cleared

/-- The collector only adds beside a running process method while the block
has a free slot. -/
def RoomWhileExecuting (state : State Object) : Action Object → Prop
  | .add _ => state.phase.Executing → ¬state.queue.Full
  | _ => True

instance (state : State Object) (action : Action Object) :
    Decidable (RoomWhileExecuting state action) :=
  match action with
  | .add _ => inferInstanceAs (Decidable (state.phase.Executing → ¬state.queue.Full))
  | .clear _ => isTrue trivial
  | .process => isTrue trivial

/-! ## The invariant

The additions split into the ones the start index has passed and the ones the
list still holds, a cleared entry being held as an empty slot. -/

section
variable [DecidableEq Object]

def slot (cleared : List (Addition Object)) (element : Addition Object) :
    Option (Addition Object) :=
  if element ∈ cleared then none else some element

/-- What the position of the processing thread says about the indices and the
history. -/
def PhaseConsistent (state : State Object) (held : List (Addition Object)) : Prop :=
  match state.phase with
  | .waiting => state.queue.Idle ∧ state.handed = state.completed
  | .picking => state.queue.Scanning ∧ state.handed = state.completed
  | .executing element =>
    state.queue.Busy ∧ state.handed = state.completed ++ [element] ∧ held.head? = some element

structure Consistent (state : State Object) (passed held : List (Addition Object)) : Prop where
  added_eq : state.added = passed ++ held
  serials : state.added.map Addition.serial = range state.added.length
  cleared_subset : ∀ element ∈ state.cleared, element ∈ state.added
  slots : state.queue.iterateObjectList = held.map (slot state.cleared)
  completed_sublist : state.completed.Sublist passed
  passed_accounted : ∀ element ∈ passed, element ∈ state.completed ∨ element ∈ state.cleared
  phase : PhaseConsistent state held

variable {state : State Object} {passed held : List (Addition Object)}

theorem Consistent.added_nodup (sane : Consistent state passed held) : state.added.Nodup := by
  apply Nodup.of_map Addition.serial
  rw [sane.serials]
  exact nodup_range

theorem reduceOption_map_slot (cleared held : List (Addition Object)) :
    (held.map (slot cleared)).reduceOption = held.filter fun element => element ∉ cleared := by
  induction held with
  | nil => rfl
  | cons element rest ih =>
    by_cases isCleared : element ∈ cleared
    · simp [slot, isCleared, ih]
    · simp [slot, isCleared, ih]

section
variable (sane : Consistent state passed held)
include sane

theorem Consistent.visits : state.queue.iterateObjectList.reduceOption = outstanding state := by
  have nodup := sane.added_nodup
  rw [sane.added_eq] at nodup
  have apart := (nodup_append.mp nodup).2.2
  have passedGone : passed.filter (fun element =>
      element ∉ state.completed ∧ element ∉ state.cleared) = [] := by
    apply filter_eq_nil_iff.mpr
    intro element mem
    rcases sane.passed_accounted element mem with isDone | isCleared
    · simp [isDone]
    · simp [isCleared]
  rw [outstanding, sane.added_eq, filter_append, passedGone,
    nil_append, sane.slots, reduceOption_map_slot]
  apply filter_congr
  intro element mem
  have notDone : element ∉ state.completed := fun isDone =>
    apart element (sane.completed_sublist.subset isDone) element mem rfl
  simp [notDone]

theorem Consistent.completed_sublist_added : state.completed.Sublist state.added := by
  rw [sane.added_eq]
  exact sane.completed_sublist.trans (sublist_append_left _ _)

theorem Consistent.handed_sublist : state.handed.Sublist state.added ∧
      ∀ element ∈ state.completed, element ∈ state.handed := by
  have phase := sane.phase
  unfold PhaseConsistent at phase
  split at phase
  · rw [phase.2]
    exact ⟨sane.completed_sublist_added, fun _ mem => mem⟩
  · rw [phase.2]
    exact ⟨sane.completed_sublist_added, fun _ mem => mem⟩
  · rename_i element _
    rcases phase with ⟨_, handedEq, headEq⟩
    rcases head?_eq_some_iff.mp headEq with ⟨rest, rfl⟩
    rw [handedEq, sane.added_eq]
    constructor
    · exact sane.completed_sublist.append ((nil_sublist rest).cons_cons element)
    · intro other mem
      exact mem_append_left _ mem

theorem Consistent.faithful : Faithful state where
  added_nodup := sane.added_nodup
  handed_sublist := sane.handed_sublist.1
  visits := sane.visits
  accounted := by
    intro element mem
    by_cases isDone : element ∈ state.completed
    · exact .inr (.inl (sane.handed_sublist.2 element isDone))
    · by_cases isCleared : element ∈ state.cleared
      · exact .inr (.inr isCleared)
      · left
        rw [sane.visits, outstanding]
        simp [mem, isDone, isCleared]

end

theorem initialState_consistent : Consistent (initialState : State Object) [] [] where
  added_eq := rfl
  serials := rfl
  cleared_subset := by simp [initialState]
  slots := rfl
  completed_sublist := .refl _
  passed_accounted := by simp
  phase := ⟨⟨rfl, Nat.le_refl _⟩, rfl⟩

/-! ## Steps of the collector -/

theorem Consistent.add (sane : Consistent state passed held) (object : Object)
    (unlocked : ¬state.phase.Locked)
    (room : RoomWhileExecuting state (.add object)) :
    Consistent (ProcessList.add state object) passed
      (held ++ [⟨state.added.length, object⟩]) := by
  let element : Addition Object := ⟨state.added.length, object⟩
  -- The serial of the new element is larger than every serial seen so far.
  have fresh : element ∉ state.added := by
    intro mem
    have serialMember := mem_map_of_mem (f := Addition.serial) mem
    rw [sane.serials] at serialMember
    exact Nat.lt_irrefl _ (mem_range.mp serialMember)
  have notCleared : element ∉ state.cleared := fun mem => fresh (sane.cleared_subset element mem)
  have appended : (state.queue.addToObjectList element).iterateObjectList =
        state.queue.iterateObjectList ++ [some element] ∧
      PhaseConsistent (ProcessList.add state object) (held ++ [element]) := by
    have phase := sane.phase
    unfold PhaseConsistent at phase ⊢
    simp only [ProcessList.add]
    split at phase
    · have grown := phase.1.addToObjectList element
      exact ⟨grown.2, grown.1, phase.2⟩
    · rename_i atPicking
      simp [atPicking, Phase.Locked] at unlocked
    · rename_i current atExecuting
      have grown := phase.1.addToObjectList (room (by simp [atExecuting, Phase.Executing])) element
      refine ⟨grown.2, grown.1, phase.2.1, ?_⟩
      rw [head?_append, phase.2.2]
      rfl
  exact {
    added_eq := by simp [ProcessList.add, sane.added_eq]
    serials := by
      simp [ProcessList.add, sane.serials, range_succ]
    cleared_subset := fun other mem => mem_append_left _ (sane.cleared_subset other mem)
    slots := by
      change (state.queue.addToObjectList element).iterateObjectList =
        (held ++ [element]).map (slot state.cleared)
      rw [appended.1, sane.slots]
      simp [slot, notCleared]
    __ := sane
    phase := appended.2 }

theorem slot_append_filter (cleared held : List (Addition Object))
    (unmarked : Object → Bool) (element : Addition Object)
    (mem : element ∈ held) :
    slot (cleared ++ (held.filter fun other => other ∉ cleared).filter
        fun other => unmarked other.object) element =
      (slot cleared element).filter fun other => !unmarked other.object := by
  by_cases isCleared : element ∈ cleared
  · simp [slot, isCleared]
  · cases marking : unmarked element.object <;>
      simp [slot, isCleared, mem, marking, Option.filter]

theorem Consistent.clear (sane : Consistent state passed held) (unmarked : Object → Bool) :
    Consistent (ProcessList.clear state unmarked) passed held where
  __ := sane
  cleared_subset := by
    intro element mem
    rcases mem_append.mp mem with mem | mem
    · exact sane.cleared_subset element mem
    · have visited := (mem_filter.mp mem).1
      rw [sane.slots, reduceOption_map_slot] at visited
      change element ∈ state.added
      rw [sane.added_eq]
      exact mem_append_right _ (mem_filter.mp visited).1
  slots := by
    simp only [ProcessList.clear]
    rw [iterateObjectList_clearUnmarked, sane.slots, reduceOption_map_slot, map_map]
    apply map_congr_left
    intro element mem
    exact (slot_append_filter state.cleared held unmarked element mem).symm
  passed_accounted := by
    intro element mem
    rcases sane.passed_accounted element mem with isDone | isCleared
    · exact .inl isDone
    · exact .inr (mem_append_left _ isCleared)
  phase := by
    have phase := sane.phase
    unfold PhaseConsistent at phase ⊢
    simp only [ProcessList.clear]
    split at phase
    · exact ⟨⟨phase.1.start_eq, phase.1.stop_le⟩, phase.2⟩
    · exact ⟨⟨phase.1.start_le, phase.1.stop_pos, phase.1.stop_le⟩, phase.2⟩
    · exact ⟨⟨phase.1.start_lt, phase.1.stop_pos, phase.1.stop_le⟩, phase.2⟩

/-! ## Steps of the processing thread -/

theorem Consistent.loopTest (sane : Consistent state passed (element :: rest))
    (busy : state.queue.Busy) (completed : List (Addition Object))
    (sublist : completed.Sublist (passed ++ [element]))
    (kept : ∀ other ∈ state.completed, other ∈ completed)
    (accounted : element ∈ completed ∨ element ∈ state.cleared)
    (handed : state.handed = completed) :
    Consistent (ProcessList.loopTest { state with completed := completed })
      (passed ++ [element]) rest := by
  have split := busy.iterateObjectList_eq_cons
  rw [sane.slots, map_cons] at split
  have restSlots := (List.cons.inj split).2
  have history : ∀ other ∈ passed ++ [element], other ∈ completed ∨ other ∈ state.cleared := by
    intro other mem
    rcases mem_append.mp mem with mem | mem
    · rcases sane.passed_accounted other mem with isDone | isCleared
      · exact .inl (kept other isDone)
      · exact .inr isCleared
    · rw [mem_singleton.mp mem]
      exact accounted
  have addedEq : state.added = (passed ++ [element]) ++ rest := by simp [sane.added_eq]
  rw [ProcessList.loopTest]
  by_cases last : state.queue.start + 1 = state.queue.stop
  · rw [if_pos last] at restSlots
    have nothing : rest = [] := map_eq_nil_iff.mp restSlots
    subst nothing
    dsimp only
    rw [if_neg (not_not.mpr last)]
    exact ⟨addedEq, sane.serials, sane.cleared_subset, by simp [iterateObjectList, iterateIndices],
      sublist, history, ⟨rfl, Nat.zero_le _⟩, handed⟩
  · rw [if_neg last] at restSlots
    dsimp only
    rw [if_pos last]
    exact ⟨addedEq, sane.serials, sane.cleared_subset, restSlots.symm, sublist, history,
      ⟨busy.start_lt, busy.stop_pos, busy.stop_le⟩, handed⟩

section
variable (sane : Consistent state passed held)
include sane

theorem Consistent.reduce (atPicking : state.phase = .picking) :
    ∃ element rest, held = element :: rest ∧
      { state.queue with start := state.queue.start % state.queue.size }.Busy ∧
      state.queue.list (state.queue.start % state.queue.size) = slot state.cleared element := by
  have phase := sane.phase
  simp only [PhaseConsistent, atPicking] at phase
  rcases phase.1.reduce with ⟨busy, visited⟩
  have split := busy.iterateObjectList_eq_cons
  rw [visited, sane.slots] at split
  cases held with
  | nil => cases split
  | cons element rest => exact ⟨element, rest, rfl, busy, (List.cons.inj split).1.symm⟩

theorem Consistent.with_reduced_start (atPicking : state.phase = .picking) :
    Consistent { state with queue :=
      { state.queue with start := state.queue.start % state.queue.size } }
      passed held := by
  have phase := sane.phase
  simp only [PhaseConsistent, atPicking] at phase
  rcases phase.1.reduce with ⟨busy, visited⟩
  exact {
    __ := sane
    slots := visited.trans sane.slots
    phase := by
      simp only [PhaseConsistent, atPicking]
      exact ⟨⟨busy.start_lt.le, busy.stop_pos, busy.stop_le⟩, phase.2⟩ }

/-- What one step of the processing thread does to the split of the additions.
Only a step out of `waiting` leaves both the split and the phase alone, and
only when nothing is held. -/
theorem Consistent.process :
    (state.phase = .waiting ∧ held = [] ∧ ProcessList.process state = state) ∨
    (state.phase = .waiting ∧ (ProcessList.process state).phase = .picking ∧
      Consistent (ProcessList.process state) passed held) ∨
    (∃ element, state.phase = .picking ∧ (ProcessList.process state).phase = .executing element ∧
      Consistent (ProcessList.process state) passed held) ∨
    (∃ element rest, held = element :: rest ∧
      Consistent (ProcessList.process state) (passed ++ [element]) rest) := by
  have phase := sane.phase
  cases pos : state.phase with
  | waiting =>
    simp only [PhaseConsistent, pos] at phase
    by_cases idle : state.queue.start = state.queue.size ∧ state.queue.stop = 0
    · left
      refine ⟨rfl, ?_, by simp [ProcessList.process, pos, idle]⟩
      have visited := sane.slots
      rw [iterateObjectList, phase.1.iterateIndices, idle.2] at visited
      exact map_eq_nil_iff.mp visited.symm
    · right; left
      have stopPositive : 0 < state.queue.stop := by
        have startEq := phase.1.start_eq
        by_contra notPositive
        exact idle ⟨startEq, by omega⟩
      have ran : ProcessList.process state = { state with phase := .picking } := by
        simp [ProcessList.process, pos, idle]
      rw [ran]
      exact ⟨rfl, rfl, { sane with
        phase := ⟨⟨phase.1.start_eq.le, stopPositive, phase.1.stop_le⟩, phase.2⟩ }⟩
  | picking =>
    simp only [PhaseConsistent, pos] at phase
    rcases sane.reduce pos with ⟨element, rest, rfl, busy, slotEq⟩
    have reduced := sane.with_reduced_start pos
    by_cases isCleared : element ∈ state.cleared
    · right; right; right
      refine ⟨element, rest, rfl, ?_⟩
      have ran : ProcessList.process state = ProcessList.loopTest
          { state with queue := { state.queue with
            start := state.queue.start % state.queue.size } } := by
        simp [ProcessList.process, pos, slotEq, slot, isCleared]
      rw [ran]
      exact reduced.loopTest busy state.completed
        (sane.completed_sublist.trans (sublist_append_left _ _))
        (fun _ mem => mem) (.inr isCleared) phase.2
    · right; right; left
      have ran : ProcessList.process state = { state with
            queue := { state.queue with
              start := state.queue.start % state.queue.size }
            phase := .executing element
            handed := state.handed ++ [element] } := by
        simp [ProcessList.process, pos, slotEq, slot, isCleared]
      refine ⟨element, rfl, by rw [ran], ?_⟩
      rw [ran]
      exact { sane with
        slots := reduced.slots
        phase := ⟨busy, by rw [phase.2], rfl⟩ }
  | executing element =>
    simp only [PhaseConsistent, pos] at phase
    rcases phase with ⟨busy, handedEq, headEq⟩
    rcases head?_eq_some_iff.mp headEq with ⟨rest, rfl⟩
    right; right; right
    refine ⟨element, rest, rfl, ?_⟩
    have ran : ProcessList.process state = ProcessList.loopTest
        { state with completed := state.completed ++ [element] } := by
      simp [ProcessList.process, pos]
    rw [ran]
    exact sane.loopTest busy (state.completed ++ [element])
      (sane.completed_sublist.append (.refl _))
      (fun _ mem => mem_append_left _ mem)
      (.inl (by simp)) handedEq

end

/-! ## Runs -/

theorem reachable_consistent (reachable : (system Object).ReachableWhile RoomWhileExecuting state) :
    ∃ passed held, Consistent state passed held := by
  apply reachable.invariant fun state => ∃ passed held, Consistent state passed held
  · intro state start
    exact ⟨[], [], start ▸ initialState_consistent⟩
  · intro current action next ⟨passed, held, sane⟩ room ran
    cases action with
    | add object =>
      simp only [system, step] at ran
      split at ran
      · cases ran
      · rename_i unlocked
        cases ran
        exact ⟨_, _, sane.add object unlocked room⟩
    | clear unmarked =>
      simp only [system, step] at ran
      split at ran
      · cases ran
      · cases ran
        exact ⟨_, _, sane.clear unmarked⟩
    | process =>
      cases ran
      rcases sane.process with ⟨_, _, same⟩ | ⟨_, _, kept⟩ |
        ⟨_, _, _, kept⟩ | ⟨_, _, _, moved⟩
      · exact ⟨passed, held, same.symm ▸ sane⟩
      · exact ⟨passed, held, kept⟩
      · exact ⟨passed, held, kept⟩
      · exact ⟨_, _, moved⟩

omit [DecidableEq Object] in
theorem loopTest_history (state : State Object) :
    (loopTest state).added = state.added ∧ (loopTest state).cleared = state.cleared := by
  unfold loopTest
  dsimp only
  split <;> exact ⟨rfl, rfl⟩

omit [DecidableEq Object] in
theorem process_history (state : State Object) :
    (process state).added = state.added ∧ (process state).cleared = state.cleared := by
  unfold process
  split
  · split <;> exact ⟨rfl, rfl⟩
  · dsimp only
    split
    · exact loopTest_history _
    · exact ⟨rfl, rfl⟩
  · exact loopTest_history _

def Drains (state : State Object) : Prop :=
  ∃ count, (process^[count] state).phase = .waiting ∧
    Consistent (process^[count] state) state.added [] ∧
    (process^[count] state).added = state.added ∧
    (process^[count] state).cleared = state.cleared

theorem Drains.of_process (drains : Drains (process state)) : Drains state := by
  rcases process_history state with ⟨addedEq, clearedEq⟩
  rcases drains with ⟨count, waiting, drained, added, cleared⟩
  rw [addedEq] at drained added
  rw [clearedEq] at cleared
  exact ⟨count + 1, waiting, drained, added, cleared⟩

def Phase.distance : Phase Element → Nat
  | .waiting => 2
  | .picking => 1
  | .executing _ => 0

theorem drains_of_measure : ∀ (fuel : Nat) {state : State Object}
    {passed held : List (Addition Object)}, Consistent state passed held →
    3 * held.length + state.phase.distance ≤ fuel → Drains state := by
  intro fuel
  induction fuel with
  | zero =>
    intro state passed held sane bound
    have nothing : held = [] := eq_nil_of_length_eq_zero (by omega)
    cases pos : state.phase with
    | waiting | picking => simp [pos, Phase.distance] at bound
    | executing =>
      have phase := sane.phase
      simp [PhaseConsistent, pos, nothing] at phase
  | succ fuel ih =>
    intro state passed held sane bound
    rcases sane.process with ⟨waiting, nothing, _⟩ |
      ⟨waiting, nextPicking, kept⟩ | ⟨_, picking, nextExecuting, kept⟩ |
      ⟨element, rest, rfl, moved⟩
    · subst nothing
      have addedEq : state.added = passed := by simp [sane.added_eq]
      exact ⟨0, waiting, addedEq ▸ sane, rfl, rfl⟩
    · apply Drains.of_process
      apply ih kept
      simp [waiting, nextPicking, Phase.distance] at bound ⊢
      omega
    · apply Drains.of_process
      apply ih kept
      simp [picking, nextExecuting, Phase.distance] at bound ⊢
      omega
    · apply Drains.of_process
      apply ih moved
      have distanceBound : (process state).phase.distance ≤ 2 := by
        cases (process state).phase <;> simp [Phase.distance]
      simp only [length_cons] at bound
      omega

/-- In every interleaving that adds beside a running process method only while
a slot is free, nothing is lost, duplicated or reordered, and the processing
thread, left to itself, hands over every object that has not been cleared. -/
theorem processObjectList_faithful {state : State Object}
    (reachable : (system Object).ReachableWhile RoomWhileExecuting state) :
    Faithful state ∧ ∃ count, (process^[count] state).phase = .waiting ∧
        (process^[count] state).handed.Sublist state.added ∧
        ∀ element ∈ state.added,
          element ∈ (process^[count] state).handed ∨ element ∈ state.cleared := by
  rcases reachable_consistent reachable with ⟨passed, held, sane⟩
  refine ⟨sane.faithful, ?_⟩
  rcases drains_of_measure _ sane le_rfl with
    ⟨count, waiting, drained, addedEq, clearedEq⟩
  refine ⟨count, waiting, addedEq ▸ drained.handed_sublist.1, ?_⟩
  intro element mem
  rcases drained.passed_accounted element mem with isDone | isCleared
  · exact .inl (drained.handed_sublist.2 element isDone)
  · exact .inr (clearedEq ▸ isCleared)

end

/-- One object is added, picked up and being processed when a second arrives. -/
theorem processObjectList_faithful_second_arrival :
    ∃ state : State Unit, (system Unit).runWhile RoomWhileExecuting initialState
        [.add (), .process, .process, .add ()] = some state ∧ Faithful state := by
  have executed : ∃ state, (system Unit).runWhile RoomWhileExecuting initialState
      [.add (), .process, .process, .add ()] = some state := ⟨_, rfl⟩
  rcases executed with ⟨state, executed⟩
  have reachable := TransitionSystem.ReachableWhile.of_runWhile (.initial rfl) executed
  exact ⟨state, executed, (processObjectList_faithful reachable).1⟩

/-- A hundred additions fill the block exactly. One more addition while the
first object is being processed wraps onto its slot, and the other hundred
are no longer on the list. -/
theorem processObjectList_loses_objects :
    ∃ state : State Unit, (system Unit).Reachable state ∧ ¬Faithful state := by
  have overrun : ((system Unit).run initialState
      (replicate 100 (.add ()) ++ [.process, .process, .add ()])).map
        (fun state => (state.queue.iterateObjectList.reduceOption.length,
          (outstanding state).length)) = some (1, 101) := by
    decide +kernel
  rcases Option.map_eq_some_iff.mp overrun with ⟨state, executed, lengths⟩
  refine ⟨state, .of_run (.initial rfl) executed, ?_⟩
  intro faithful
  have visits := congrArg length faithful.visits
  have counts := Prod.mk.inj lengths
  rw [counts.1, counts.2] at visits
  cases visits

end JamVM.Alloc.ProcessList
