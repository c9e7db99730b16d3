import Mathlib.Order.Interval.Finset.Nat
import JamVM.Thread.Suspend

/-! # Attaching a thread

`attachThread` puts the native thread on the thread list, counts it and gives it a thread ID
before it makes the Java-level objects of the thread. When these cannot be made, it returns.
-/

namespace JamVM.Thread.Attach

open List Function

/-! ## Thread IDs -/

abbrev Bitmap := List (BitVec 32)

def mapInc : Nat := 32

def ffs (word : BitVec 32) : Nat := ((range 32).find? fun bit => word.getLsbD bit).elim 0 (· + 1)

def scan (i : Nat) : Bitmap → Option (Bitmap × Nat)
  | [] => none
  | word :: rest =>
    if word ≠ 0xffffffff#32 then
      let n := ffs (~~~word)
      some ((word ||| 1#32 <<< (n - 1)) :: rest, i * 32 + n)
    else
      (scan (i + 1) rest).map fun found => (word :: found.1, found.2)

def genThreadID (bitmap : Bitmap) : Option (Bitmap × Nat) :=
  match scan 0 bitmap with
  | some found => some found
  | none => (scan bitmap.length (.replicate mapInc 0)).map fun found => (bitmap ++ found.1, found.2)

def bit (bitmap : Bitmap) (index : Nat) : Bool := (bitmap[index / 32]?.getD 0).getLsbD (index % 32)

theorem allOnes : 0xffffffff#32 = BitVec.allOnes 32 := rfl

theorem ffs_complement (free : word ≠ 0xffffffff#32) :
    ∃ n < 32, ffs (~~~word) = n + 1 ∧ word.getLsbD n = false ∧ ∀ m < n, word.getLsbD m = true := by
  cases found : (range 32).find? fun bit => (~~~word).getLsbD bit with
  | none =>
    refine absurd (BitVec.eq_of_getLsbD_eq fun n inside => ?_) free
    have set := find?_eq_none.mp found n (mem_range.mpr inside)
    rw [allOnes, BitVec.getLsbD_allOnes]
    simpa [inside] using set
  | some n =>
    obtain ⟨clear, inside, before⟩ := find?_range_eq_some.mp found
    have inside := mem_range.mp inside
    refine ⟨n, inside, by rw [ffs, found]; rfl, by simpa [inside] using clear, fun m less => ?_⟩
    simpa [less.trans inside] using before m less

theorem bit_cons_of_lt (first : index < 32) : bit (word :: rest) index = word.getLsbD index := by
  simp [bit, Nat.div_eq_of_lt first, Nat.mod_eq_of_lt first]

theorem bit_cons_add {rest : Bitmap} : bit (word :: rest) (index + 32) = bit rest index := by
  simp [bit]

theorem scan_spec {id : Nat} (found : scan i bitmap = some (grown, id)) :
    ∃ index, id = i * 32 + index + 1 ∧ (bit bitmap index = false ∧
      ∀ other < index, bit bitmap other = true) ∧
      ∀ other, bit grown other = (bit bitmap other || decide (other = index)) := by
  induction bitmap generalizing i grown id with
  | nil => cases found
  | cons word rest ih =>
    rw [scan] at found
    split at found
    · rename_i free
      obtain ⟨n, inside, isFfs, clear, least⟩ := ffs_complement free
      obtain ⟨rfl, rfl⟩ := Prod.mk.inj (Option.some.inj found)
      refine ⟨n, by rw [isFfs]; rfl, ⟨by rwa [bit_cons_of_lt inside], fun other less => ?_⟩,
        fun other => ?_⟩
      · rw [bit_cons_of_lt (less.trans inside), least other less]
      rw [isFfs, Nat.add_sub_cancel]
      by_cases first : other < 32
      · rw [bit_cons_of_lt first, bit_cons_of_lt first, BitVec.getLsbD_or]
        congr 1
        rw [BitVec.getLsbD_shiftLeft, BitVec.getLsbD_one]
        grind
      · obtain ⟨later, rfl⟩ : ∃ later, other = later + 32 := ⟨other - 32, by omega⟩
        rw [bit_cons_add, bit_cons_add, decide_eq_false (by omega), Bool.or_false]
    · rename_i full
      obtain ⟨⟨after, _⟩, later, same⟩ := Option.map_eq_some_iff.mp found
      obtain ⟨rfl, rfl⟩ := Prod.mk.inj same
      obtain ⟨index, isId, ⟨clear, least⟩, written⟩ := ih later
      refine ⟨index + 32, by omega, ⟨by rwa [bit_cons_add], fun other less => ?_⟩, fun other => ?_⟩
      · by_cases first : other < 32
        · rw [bit_cons_of_lt first, not_not.mp full, allOnes, BitVec.getLsbD_allOnes]
          exact decide_eq_true first
        · obtain ⟨other, rfl⟩ : ∃ rest, other = rest + 32 := ⟨other - 32, by omega⟩
          rw [bit_cons_add, least other (by omega)]
      by_cases first : other < 32
      · rw [bit_cons_of_lt first, bit_cons_of_lt first, decide_eq_false (by omega), Bool.or_false]
      · obtain ⟨other, rfl⟩ : ∃ rest, other = rest + 32 := ⟨other - 32, by omega⟩
        rw [bit_cons_add, bit_cons_add, written]
        simp

theorem bit_append_zeros (count : Nat) :
    bit (bitmap ++ .replicate count 0) index = bit bitmap index := by
  unfold bit
  by_cases inside : index / 32 < bitmap.length
  · rw [getElem?_append_left inside]
  · rw [getElem?_append_right (by omega), getElem?_replicate, getElem?_eq_none (by omega)]
    split <;> rfl

theorem scan_append (full : scan i bitmap = none) (words : Bitmap) : scan i (bitmap ++ words) =
    (scan (i + bitmap.length) words).map fun found => (bitmap ++ found.1, found.2) := by
  induction bitmap generalizing i with
  | nil => simp
  | cons word rest ih =>
    rw [scan] at full
    split at full
    · cases full
    · rename_i isFull
      rw [cons_append, scan, if_neg isFull, ih (Option.map_eq_none_iff.mp full), Option.map_map,
        length_cons, Nat.add_right_comm, Nat.add_assoc]
      rfl

theorem genThreadID_spec (bitmap : Bitmap) : ∃ grown index,
    genThreadID bitmap = some (grown, index + 1) ∧
      (bit bitmap index = false ∧ ∀ other < index, bit bitmap other = true) ∧
      ∀ other, bit grown other = (bit bitmap other || decide (other = index)) := by
  unfold genThreadID
  cases found : scan 0 bitmap with
  | some res =>
    obtain ⟨grown, id⟩ := res
    obtain ⟨index, rfl, least, written⟩ := scan_spec found
    exact ⟨grown, index, by simp, least, written⟩
  | none =>
    have extended := scan_append found (.replicate mapInc 0)
    rw [Nat.zero_add] at extended
    obtain ⟨⟨grown, id⟩, isFound⟩ : ∃ found, scan 0 (bitmap ++ .replicate mapInc 0) = some found :=
      ⟨_, extended⟩
    obtain ⟨index, rfl, least, written⟩ := scan_spec isFound
    simp only [bit_append_zeros] at least written
    exact ⟨grown, index, by rw [← extended, isFound]; simp, least, written⟩

def freeThreadID (n : Nat) (bitmap : Bitmap) : Bitmap :=
  bitmap.modify ((n - 1) / 32) (· &&& ~~~(1#32 <<< ((n - 1) % 32)))

theorem bit_freeThreadID (bitmap : Bitmap) (index other : Nat) :
    bit (freeThreadID (index + 1) bitmap) other = (bit bitmap other && decide (other ≠ index)) := by
  rw [freeThreadID, bit, bit, getElem?_modify, Nat.add_sub_cancel]
  cases bitmap[other / 32]? with
  | none => simp
  | some word =>
    by_cases same : index / 32 = other / 32
    · have apart : index % 32 = other % 32 ↔ other = index := by omega
      simp [same, BitVec.getLsbD_shiftLeft, BitVec.getLsbD_one]
      grind
    · have : other ≠ index := by
        rintro rfl
        exact same rfl
      simp [same, this]

inductive Allocated : Bitmap → Finset Nat → Prop
  | initial : Allocated [] ∅
  | gen {bitmap grown : Bitmap} {live : Finset Nat} {id : Nat} : Allocated bitmap live →
      genThreadID bitmap = some (grown, id) → Allocated grown (insert id live)
  | free {bitmap : Bitmap} {live : Finset Nat} {id : Nat} : Allocated bitmap live → id ∈ live →
      Allocated (freeThreadID id bitmap) (live.erase id)

theorem Allocated.mem_iff (allocated : Allocated bitmap live) (id : Nat) :
    id ∈ live ↔ 0 < id ∧ bit bitmap (id - 1) = true := by
  induction allocated generalizing id with
  | initial => simp [bit]
  | @gen bitmap _ _ _ _ generated ih =>
    obtain ⟨grown, index, isId, -, written⟩ := genThreadID_spec bitmap
    obtain ⟨rfl, rfl⟩ := Prod.mk.inj (Option.some.inj (isId.symm.trans generated))
    rw [Finset.mem_insert, ih, written]
    grind
  | @free bitmap _ freed _ mem ih =>
    have positive := ((ih freed).mp mem).1
    obtain ⟨index, rfl⟩ : ∃ index, freed = index + 1 := ⟨freed - 1, by omega⟩
    rw [Finset.mem_erase, ih, bit_freeThreadID]
    grind

def tidShift : Nat := 8 + 1

def tidSize : Nat := 32 - tidShift

/-- A new ID is the least positive one that is not allocated. So it is not greater than the number
of IDs, which an `int` and the field in a lockword have room for. -/
theorem genThreadID_least (allocated : Allocated bitmap live) :
    ∃ grown id, genThreadID bitmap = some (grown, id) ∧ 1 ≤ id ∧ id ∉ live ∧
      (∀ other ≥ 1, other ∉ live → id ≤ other) ∧
      ((insert id live).card < 2 ^ 23 → id < 2 ^ tidSize) := by
  obtain ⟨grown, index, generated, ⟨clear, before⟩, -⟩ := genThreadID_spec bitmap
  have fresh : index + 1 ∉ live := by simp [allocated.mem_iff, clear]
  have least : ∀ other ≥ 1, other ∉ live → index + 1 ≤ other := by
    intro other positive free
    by_contra less
    exact free ((allocated.mem_iff other).mpr ⟨positive, before _ (by omega)⟩)
  refine ⟨grown, index + 1, generated, by omega, fresh, least, fun few => ?_⟩
  have used : Finset.Icc 1 index ⊆ live := by
    intro other mem
    rw [Finset.mem_Icc] at mem
    by_contra free
    have := least other mem.1 free
    omega
  have counted := Finset.card_le_card used
  rw [Nat.card_Icc, Nat.add_sub_cancel] at counted
  rw [Finset.card_insert_of_notMem fresh] at few
  exact (Nat.add_le_add_right counted 1).trans_lt few

/-- Of three IDs the second one is freed, and given out again. -/
theorem genThreadID_least_hole :
    let live := Finset.erase (insert 3 (insert 2 (insert 1 ∅))) 2
    let bitmap := freeThreadID 2 (7#32 :: .replicate 31 0)
    Allocated bitmap live ∧ ∃ grown, genThreadID bitmap = some (grown, 2) ∧ 2 ∉ live ∧
      (∀ other ≥ 1, other ∉ live → 2 ≤ other) ∧ 2 < 2 ^ tidSize := by
  intro live bitmap
  have first : Allocated (1#32 :: .replicate 31 0) (insert 1 ∅) := .gen .initial (by decide)
  have second : Allocated (3#32 :: .replicate 31 0) (insert 2 (insert 1 ∅)) :=
    .gen first (by decide)
  have third : Allocated (7#32 :: .replicate 31 0) (insert 3 (insert 2 (insert 1 ∅))) :=
    .gen second (by decide)
  have allocated : Allocated bitmap live := .free third (by decide)
  obtain ⟨grown, id, generated, -, fresh, least, fits⟩ := genThreadID_least allocated
  have isHole : genThreadID bitmap = some (7#32 :: .replicate 31 0, 2) := by decide
  cases generated.symm.trans isHole
  exact ⟨allocated, _, isHole, fresh, least, fits (by decide)⟩

/-! ## The thread list -/

variable {Thread : Type u} [DecidableEq Thread]

/-- What `lock` protects, and of each thread what suspension reads. The list is the part after
the main thread, its head. -/
structure State (Thread : Type u) where
  next : List Thread
  threadsCount : Nat
  peakThreadsCount : Nat
  totalStartedThreadsCount : Nat
  nonDaemonThrds : Nat
  tidBitmap : Bitmap
  threadIdMap : Nat → Option Thread
  allThreadsSuspended : Bool
  id : Thread → Nat
  suspend : Thread → Bool
  suspendState : Thread → SuspendState

def initThread (state : State Thread) (thread : Thread) (isDaemon : Bool) : Option (State Thread) :=
  if state.allThreadsSuspended then none
  else (genThreadID state.tidBitmap).map fun found =>
    { state with
      next := thread :: state.next
      threadsCount := state.threadsCount + 1
      peakThreadsCount :=
        if state.threadsCount + 1 > state.peakThreadsCount then state.threadsCount + 1
        else state.peakThreadsCount
      totalStartedThreadsCount := state.totalStartedThreadsCount + 1
      nonDaemonThrds := if isDaemon then state.nonDaemonThrds else state.nonDaemonThrds + 1
      tidBitmap := found.1
      id := update state.id thread found.2 }

/-- How the Java-level initialisation ends: the thread object or the string of its name cannot
be allocated, the class library refuses the thread, or it has got a Java-level ID. -/
inductive Outcome
  | noObject
  | noName
  | refused
  | initialised (javaId : Nat)
  deriving DecidableEq

def Outcome.fails : Outcome → Bool
  | initialised _ => false
  | _ => true

/-- `addThreadToHash` keeps an entry that is there. -/
def initJavaThread (state : State Thread) (thread : Thread) : Outcome → State Thread × Bool
  | .initialised javaId =>
    let found := (state.threadIdMap javaId).getD thread
    ({ state with threadIdMap := update state.threadIdMap javaId (some found) }, true)
  | _ => (state, false)

def attachThread (state : State Thread) (thread : Thread) (isDaemon : Bool) (outcome : Outcome) :
    Option (State Thread × Bool) :=
  (initThread state thread isDaemon).map (initJavaThread · thread outcome)

/-! ## Suspension -/

/-- One round of the first loop of `suspendAllThreads`, with the threads that `pthread_kill` has
been called for. `alive` says for which it finds a thread. -/
def signalThread (alive : Thread → Bool) (self : Thread) (visited : State Thread × List Thread)
    (thread : Thread) : State Thread × List Thread :=
  if thread = self then visited
  else
    let state := { visited.1 with suspend := update visited.1.suspend thread true }
    if state.suspendState thread ≠ .none then (state, visited.2)
    else if alive thread then (state, visited.2 ++ [thread])
    else
      ({ state with suspendState := update state.suspendState thread .blocking },
        visited.2 ++ [thread])

def signalAll (alive : Thread → Bool) (main self : Thread) (state : State Thread) :
    State Thread × List Thread :=
  (main :: state.next).foldl (signalThread alive self) (state, [])

def allStopped (main self : Thread) (state : State Thread) : Bool :=
  (main :: state.next).all fun thread => thread = self ||
    state.suspendState thread = .blocking || state.suspendState thread = .suspended

section
variable {alive : Thread → Bool} {self thread other : Thread}
  {visited : State Thread × List Thread}

theorem signalThread_keeps : (visited.1.suspend thread = true →
      (signalThread alive self visited other).1.suspend thread = true) ∧
    (thread ∈ visited.2 → thread ∈ (signalThread alive self visited other).2) ∧
    (thread ≠ other → (signalThread alive self visited other).1.suspendState thread =
      visited.1.suspendState thread) := by
  refine ⟨fun suspended => ?_, fun mem => ?_, fun ne => ?_⟩
  all_goals
    simp only [signalThread]
    split_ifs <;> simp_all [update_apply]

theorem foldl_signalThread {threads : List Thread} (other : thread ≠ self)
    (seen : thread ∈ threads ∧ visited.1.suspendState thread = found ∨
      visited.1.suspend thread = true ∧ (found = .none → thread ∈ visited.2)) :
    (threads.foldl (signalThread alive self) visited).1.suspend thread = true ∧
    (found = .none → thread ∈ (threads.foldl (signalThread alive self) visited).2) := by
  induction threads generalizing visited with
  | nil => exact seen.resolve_left (by simp)
  | cons head rest ih =>
    obtain ⟨suspended, killed, kept⟩ := @signalThread_keeps Thread _ alive self thread head visited
    refine ih ?_
    rcases seen with ⟨mem, rfl⟩ | ⟨done, signalled⟩
    · by_cases same : thread = head
      · subst same
        refine .inr ?_
        simp only [signalThread, if_neg other]
        split_ifs <;> simp_all
      · exact .inl ⟨(mem_cons.mp mem).resolve_left same, kept same⟩
    · exact .inr ⟨suspended done, fun free => killed (signalled free)⟩

end

/-- A failed attach never restores the list, the count and the bitmap. Everything but the map of
Java-level IDs has a trace of the thread, and as long as the thread is on the list,
`suspendAllThreads` by another thread sets its `suspend` flag, signals it unless it
says it need not be, and waits for it. -/
theorem attachThread_failed (state : State Thread) (thread : Thread) (isDaemon : Bool)
    (outcome : Outcome) (failed : outcome.fails = true)
    (running : state.allThreadsSuspended = false) :
    ∃ left index, attachThread state thread isDaemon outcome = some (left, false) ∧
      (left.next ≠ state.next ∧ left.threadsCount ≠ state.threadsCount ∧
        left.tidBitmap ≠ state.tidBitmap) ∧ left.threadIdMap = state.threadIdMap ∧
      left.next = thread :: state.next ∧ left.threadsCount = state.threadsCount + 1 ∧
      left.nonDaemonThrds = state.nonDaemonThrds + (if isDaemon then 0 else 1) ∧
      left.id thread = index + 1 ∧ bit state.tidBitmap index = false ∧
      (∀ other, bit left.tidBitmap other = (bit state.tidBitmap other || decide (other = index))) ∧
      ∀ (later : State Thread) alive main self, thread ∈ later.next → thread ≠ self →
        (signalAll alive main self later).1.suspend thread = true ∧
        (later.suspendState thread = .none → thread ∈ (signalAll alive main self later).2) ∧
        (allStopped main self later = true → later.suspendState thread = .blocking ∨
          later.suspendState thread = .suspended) := by
  obtain ⟨grown, index, generated, ⟨clear, -⟩, written⟩ := genThreadID_spec state.tidBitmap
  have returned (left : State Thread) : initJavaThread left thread outcome = (left, false) := by
    cases outcome with
    | initialised => cases failed
    | noObject | noName | refused => rfl
  rw [attachThread, initThread, running, generated]
  have marked : grown ≠ state.tidBitmap := by
    rintro rfl
    simpa [clear] using written index
  refine ⟨_, index, congrArg some (returned _), ⟨cons_ne_self _ _, Nat.succ_ne_self _, marked⟩,
    rfl, rfl, rfl, ?_, ?_, clear, written, ?_⟩
  · cases isDaemon <;> rfl
  · exact Function.update_self ..
  · intro later alive main self listed other
    have listed : thread ∈ main :: later.next := mem_cons_of_mem main listed
    obtain ⟨suspended, signalled⟩ := foldl_signalThread other (.inl ⟨listed, rfl⟩)
    refine ⟨suspended, signalled, fun stopped => ?_⟩
    have stopped := all_eq_true.mp stopped thread listed
    simpa [other] using stopped

def started : State Nat where
  next := []
  threadsCount := 1
  peakThreadsCount := 1
  totalStartedThreadsCount := 1
  nonDaemonThrds := 0
  tidBitmap := [1]
  threadIdMap _ := none
  allThreadsSuspended := false
  id _ := 1
  suspend _ := false
  suspendState _ := .none

theorem attachThread_failed_named : ∃ left, attachThread started 1 true .noName =
    some (left, false) ∧ left.next = [1] ∧ left.tidBitmap ≠ started.tidBitmap := by
  obtain ⟨left, -, attached, ⟨-, -, marked⟩, -, next, -⟩ :=
    attachThread_failed started 1 true .noName rfl rfl
  exact ⟨left, attached, next, marked⟩

/-- A thread that is no daemon fails for want of a thread object. The main thread then signals it
and waits for it. -/
theorem attachThread_leaves_trace :
    (attachThread started 1 false .noObject).any (fun res => res.2 = false ∧
      res.1.next = [1] ∧ res.1.threadsCount = 2 ∧ res.1.nonDaemonThrds = 1 ∧
      res.1.tidBitmap = [3] ∧ (signalAll (fun _ => true) 0 0 res.1).2 = [1] ∧
      allStopped 0 0 (signalAll (fun _ => true) 0 0 res.1).1 = false) = true := by
  decide

end JamVM.Thread.Attach
