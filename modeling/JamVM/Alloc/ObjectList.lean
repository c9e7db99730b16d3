import Mathlib.Algebra.Order.Ring.Int
import Mathlib.Data.List.Range
import Mathlib.Data.List.Nodup
import Mathlib.Data.List.ReduceOption
import JamVM.Foundation.Transition

/-! # The finaliser and reference queues

The collector hands objects to the finaliser and reference handler threads
through circular lists. A list is a block of slots with a start index, an end
index and a size; the macros of `alloc.c` encode empty, full and in-progress
in these three numbers alone.
-/

namespace JamVM.Alloc

open Nat List Function

def listIncrement : Nat := 100

/-- The variables `list##_list`, `list##_start`, `list##_end` and
`list##_size`. A `NULL` slot is `none`. -/
structure ObjectList (Object : Type u) where
  list : Nat → Option Object
  start : Nat
  stop : Nat
  size : Nat

namespace ObjectList

variable {Object : Type u}

def empty : ObjectList Object where
  list _ := none
  start := 0
  stop := 0
  size := 0

section
variable (queue : ObjectList Object)

/-- The expansion at the head of `ADD_TO_OBJECT_LIST`, taken when the indices
meet. Reallocation keeps the old slots. -/
def expand : ObjectList Object where
  list := queue.list
  start := queue.size + listIncrement
  stop := queue.size
  size := queue.size + listIncrement

def addToObjectList (object : Object) : ObjectList Object :=
  let queue := if queue.start = queue.stop then queue.expand else queue
  let pos := queue.stop % queue.size
  { queue with
    list := update queue.list pos (some object)
    stop := pos + 1 }

def iterateIndices : List Nat :=
  if queue.stop > queue.start then
    range' queue.start (queue.stop - queue.start)
  else
    range' queue.start (queue.size - queue.start) ++ range' 0 queue.stop

def iterateObjectList : List (Option Object) := queue.iterateIndices.map queue.list

def clearUnmarked (unmarked : Object → Bool) : ObjectList Object :=
  { queue with
    list := fun index =>
      if index ∈ queue.iterateIndices then
        (queue.list index).filter fun object => !unmarked object
      else
        queue.list index }

def Full : Prop := queue.iterateIndices.length = queue.size

instance : Decidable queue.Full := inferInstanceAs (Decidable (_ = _))

theorem iterateIndices_of_lt (linear : queue.start < queue.stop) :
    queue.iterateIndices = range' queue.start (queue.stop - queue.start) := by
  simp [iterateIndices, linear]

theorem iterateIndices_of_le (wrapped : queue.stop ≤ queue.start) :
    queue.iterateIndices = range' queue.start (queue.size - queue.start) ++
        range' 0 queue.stop := by
  simp [iterateIndices, not_lt.mpr wrapped]

theorem map_update_of_not_mem (list : Nat → Option Object)
    {indices : List Nat} (value : Option Object)
    (fresh : pos ∉ indices) :
    indices.map (update list pos value) = indices.map list := by
  apply map_congr_left
  intro index mem
  apply update_of_ne
  intro equal
  exact fresh (equal ▸ mem)

theorem iterateObjectList_of_append {pre post : ObjectList Object} (pos : Nat)
    (indices : post.iterateIndices = pre.iterateIndices ++ [pos])
    (fresh : pos ∉ pre.iterateIndices)
    (slots : post.list = update pre.list pos (some object)) :
    post.iterateObjectList = pre.iterateObjectList ++ [some object] := by
  rw [iterateObjectList, iterateObjectList, indices, slots, map_append,
    map_update_of_not_mem _ _ fresh]
  simp

/-- An idle list: the processing thread has reset the start index to the size,
so the occupied slots are the ones below the end index. -/
structure Idle : Prop where
  start_eq : queue.start = queue.size
  stop_le : queue.stop ≤ queue.size

structure Busy : Prop where
  start_lt : queue.start < queue.size
  stop_pos : 0 < queue.stop
  stop_le : queue.stop ≤ queue.size

structure Scanning : Prop where
  start_le : queue.start ≤ queue.size
  stop_pos : 0 < queue.stop
  stop_le : queue.stop ≤ queue.size

end

variable {queue : ObjectList Object}

theorem Idle.iterateIndices (idle : queue.Idle) : queue.iterateIndices = range' 0 queue.stop := by
  rw [iterateIndices_of_le queue (by rw [idle.start_eq]; exact idle.stop_le), idle.start_eq]
  simp

theorem Busy.not_full (busy : queue.Busy) (room : ¬queue.Full) :
    queue.start ≠ queue.stop ∧ (queue.stop = queue.size → 0 < queue.start) := by
  have startBound := busy.start_lt
  constructor
  · intro equal
    apply room
    rw [Full, iterateIndices_of_le queue (by omega)]
    simp
    omega
  · intro atEnd
    by_contra notPositive
    apply room
    rw [Full, iterateIndices_of_lt queue (by omega)]
    simp
    omega

theorem addToObjectList_of_eq (meet : queue.start = queue.stop) (object : Object) :
    queue.addToObjectList object =
      { list := update queue.list queue.size (some object)
        start := queue.size + listIncrement
        stop := queue.size + 1
        size := queue.size + listIncrement } := by
  have pos : queue.size % (queue.size + listIncrement) = queue.size :=
    mod_eq_of_lt (by simp [listIncrement])
  simp [addToObjectList, meet, expand, pos]

theorem addToObjectList_of_ne (apart : queue.start ≠ queue.stop) (object : Object) :
    queue.addToObjectList object = { queue with
        list := update queue.list (queue.stop % queue.size) (some object)
        stop := queue.stop % queue.size + 1 } := by
  simp [addToObjectList, apart]

theorem Idle.addToObjectList (idle : queue.Idle) (object : Object) :
    (queue.addToObjectList object).Idle ∧ (queue.addToObjectList object).iterateObjectList =
        queue.iterateObjectList ++ [some object] := by
  have startEq := idle.start_eq
  have stopBound := idle.stop_le
  by_cases meet : queue.start = queue.stop
  · rw [addToObjectList_of_eq meet]
    have nextIdle : ObjectList.Idle
        { list := update queue.list queue.size (some object)
          start := queue.size + listIncrement
          stop := queue.size + 1
          size := queue.size + listIncrement } :=
      ⟨rfl, by simp [listIncrement]⟩
    refine ⟨nextIdle, iterateObjectList_of_append queue.size ?_ ?_ rfl⟩
    · rw [nextIdle.iterateIndices, idle.iterateIndices, range'_1_concat, ← meet, startEq, zero_add]
    · rw [idle.iterateIndices]
      simp
      omega
  · rw [addToObjectList_of_ne meet, mod_eq_of_lt (by omega)]
    have nextIdle : ObjectList.Idle { queue with
          list := update queue.list queue.stop (some object)
          stop := queue.stop + 1 } :=
      ⟨startEq, by simp; omega⟩
    refine ⟨nextIdle, iterateObjectList_of_append queue.stop ?_ ?_ rfl⟩
    · rw [nextIdle.iterateIndices, idle.iterateIndices, range'_1_concat, zero_add]
    · rw [idle.iterateIndices]
      simp

theorem Busy.addToObjectList (busy : queue.Busy) (room : ¬queue.Full) (object : Object) :
    (queue.addToObjectList object).Busy ∧ (queue.addToObjectList object).iterateObjectList =
        queue.iterateObjectList ++ [some object] := by
  have startBound := busy.start_lt
  have stopBound := busy.stop_le
  rcases busy.not_full room with ⟨apart, atEnd⟩
  rw [addToObjectList_of_ne apart]
  rcases lt_or_ge queue.stop queue.size with below | above
  · rw [mod_eq_of_lt below]
    refine ⟨⟨startBound, succ_pos _, below⟩, iterateObjectList_of_append queue.stop ?_ ?_ rfl⟩
    · rcases lt_or_gt_of_ne apart with linear | wrapped
      · rw [iterateIndices_of_lt queue linear, iterateIndices_of_lt _ (by simp; omega)]
        rw [show queue.stop + 1 - queue.start = (queue.stop - queue.start) + 1 by
          omega, range'_1_concat]
        congr 2
        exact add_sub_of_le linear.le
      · rw [iterateIndices_of_le queue (by omega), iterateIndices_of_le _ (by simp; omega),
          range'_1_concat, append_assoc, zero_add]
    · rcases lt_or_gt_of_ne apart with linear | wrapped
      · rw [iterateIndices_of_lt queue linear]
        simp
        omega
      · rw [iterateIndices_of_le queue (by omega)]
        simp
        omega
  · -- The end index stands at the block's end and wraps to slot 0, which is
    -- free only because the start index has moved on.
    have stopEq : queue.stop = queue.size := by omega
    rw [stopEq, mod_self]
    refine ⟨⟨startBound, succ_pos _, by simp; omega⟩, iterateObjectList_of_append 0 ?_ ?_ rfl⟩
    · rw [iterateIndices_of_lt queue (by omega), iterateIndices_of_le _ (by simp; omega)]
      simp [stopEq]
    · rw [iterateIndices_of_lt queue (by omega)]
      simp
      omega

theorem Busy.iterateObjectList_eq_cons (busy : queue.Busy) :
    queue.iterateObjectList = queue.list queue.start ::
      if queue.start + 1 = queue.stop then []
      else { queue with start := queue.start + 1 }.iterateObjectList := by
  have startBound := busy.start_lt
  rcases lt_or_ge queue.start queue.stop with linear | wrapped
  · rw [iterateObjectList, iterateIndices_of_lt queue linear,
      show queue.stop - queue.start = (queue.stop - (queue.start + 1)) + 1 by omega,
      range'_succ, map_cons]
    by_cases last : queue.start + 1 = queue.stop
    · simp [last]
    · rw [if_neg last, iterateObjectList, iterateIndices_of_lt _ (by simp; omega)]
  · rw [iterateObjectList, iterateIndices_of_le queue wrapped,
      show queue.size - queue.start = (queue.size - (queue.start + 1)) + 1 by omega,
      range'_succ, cons_append, map_cons, if_neg (by omega),
      iterateObjectList, iterateIndices_of_le _ (by simp; omega)]

theorem Scanning.reduce (scanning : queue.Scanning) :
    { queue with start := queue.start % queue.size }.Busy ∧
      { queue with start := queue.start % queue.size }.iterateObjectList =
        queue.iterateObjectList := by
  have sizePositive : 0 < queue.size := lt_of_lt_of_le scanning.stop_pos scanning.stop_le
  refine ⟨⟨mod_lt _ sizePositive, scanning.stop_pos, scanning.stop_le⟩, ?_⟩
  rcases lt_or_eq_of_le scanning.start_le with below | atSize
  · rw [mod_eq_of_lt below]
  · have stopBound := scanning.stop_le
    rw [iterateObjectList, iterateObjectList, iterateIndices_of_le queue (by omega),
      iterateIndices_of_lt _ (by simpa [atSize] using scanning.stop_pos)]
    simp [atSize]

theorem iterateObjectList_clearUnmarked (queue : ObjectList Object) (unmarked : Object → Bool) :
    (queue.clearUnmarked unmarked).iterateObjectList = queue.iterateObjectList.map fun slot =>
        slot.filter fun object => !unmarked object := by
  have sameIndices : (queue.clearUnmarked unmarked).iterateIndices =
      queue.iterateIndices := rfl
  rw [iterateObjectList, iterateObjectList, sameIndices, map_map]
  apply map_congr_left
  intro index mem
  simp [clearUnmarked, mem]

structure InRange (queue : ObjectList Object) : Prop where
  start_le : queue.start ≤ queue.size
  stop_le : queue.stop ≤ queue.size

theorem mem_iterateIndices : index ∈ queue.iterateIndices ↔
      queue.start < queue.stop ∧ queue.start ≤ index ∧ index < queue.stop ∨
      queue.stop ≤ queue.start ∧
        (queue.start ≤ index ∧ index < queue.size ∨ index < queue.stop) := by
  rcases lt_or_ge queue.start queue.stop with linear | wrapped
  · rw [iterateIndices_of_lt queue linear, mem_range'_1]
    omega
  · rw [iterateIndices_of_le queue wrapped, mem_append, mem_range'_1, mem_range'_1]
    omega

theorem InRange.lt_size (inRange : queue.InRange)
    (mem : index ∈ queue.iterateIndices) : index < queue.size := by
  have stopBound := inRange.stop_le
  rcases mem_iterateIndices.mp mem with ⟨_, _, _⟩ | ⟨_, ⟨_, _⟩ | _⟩ <;> omega

theorem iterateIndices_nodup (queue : ObjectList Object) : queue.iterateIndices.Nodup := by
  rw [iterateIndices]
  split
  · exact nodup_range'
  · rename_i wrapped
    refine nodup_append.mpr ⟨nodup_range', nodup_range', ?_⟩
    intro left inLeft right inRight
    rw [mem_range'_1] at inLeft inRight
    omega

theorem InRange.addToObjectList (inRange : queue.InRange) (object : Object) :
    (queue.addToObjectList object).InRange ∧
      ∀ slot ∈ (queue.addToObjectList object).iterateObjectList,
        slot ∈ queue.iterateObjectList ∨ slot = some object := by
  have startBound := inRange.start_le
  have stopBound := inRange.stop_le
  have stored {post : ObjectList Object} {pos : Nat}
      (slots : post.list = update queue.list pos (some object))
      (older : ∀ index ∈ post.iterateIndices, index ≠ pos → index ∈ queue.iterateIndices) :
      ∀ slot ∈ post.iterateObjectList, slot ∈ queue.iterateObjectList ∨ slot = some object := by
    intro slot mem
    obtain ⟨index, visited, rfl⟩ := mem_map.mp mem
    rw [slots, update_apply]
    split
    · exact .inr rfl
    · rename_i ne
      exact .inl (mem_map_of_mem (older index visited ne))
  by_cases meet : queue.start = queue.stop
  · rw [addToObjectList_of_eq meet]
    refine ⟨⟨le_rfl, by simp [listIncrement]⟩, stored rfl ?_⟩
    intro index visited ne
    rw [mem_iterateIndices] at visited ⊢
    simp only [listIncrement] at visited
    omega
  · rw [addToObjectList_of_ne meet]
    rcases lt_or_ge queue.stop queue.size with below | above
    · rw [mod_eq_of_lt below]
      refine ⟨⟨startBound, below⟩, stored rfl ?_⟩
      intro index visited ne
      rw [mem_iterateIndices] at visited ⊢
      dsimp only at visited
      omega
    · have stopEq : queue.stop = queue.size := by omega
      rw [stopEq, mod_self]
      refine ⟨⟨startBound, by dsimp only; omega⟩, stored rfl ?_⟩
      intro index visited ne
      rw [mem_iterateIndices] at visited ⊢
      dsimp only at visited
      omega

end ObjectList

end JamVM.Alloc
