import JamVM.Alloc.Memory

/-! # Allocation

`gcMalloc` takes the first chunk of the free list that is large enough, from the place where the
last search has stopped. If there is none it collects garbage, runs finalizers, expands the heap
and clears soft references, in this order, and searches again.
-/

namespace JamVM.Alloc

open Int

/-! ## Machine arithmetic -/

def toInt (value : Int) : Int := bmod value (2 ^ 32)

def intMax : Nat := 2 ^ 31 - 1

namespace Platform

variable (plat : Platform)

def wordLimit : Nat := 2 ^ (8 * plat.wordSize)

def toWord (value : Int) : Nat := (value % plat.wordLimit).toNat

end Platform

/-! ## The state of the allocator -/

/-- `chunkpp` is `none` while it points to `freelist`, and otherwise the chunk whose `next` it
points to. -/
structure HeapState where
  memory : Memory
  base : Nat
  limit : Nat
  max : Nat
  freelist : Nat
  chunkpp : Option Nat
  heapfree : Nat

section
variable (plat : Platform)

abbrev FreeList (memory : Memory) : Nat → List Nat → Nat → Prop :=
  Chain id (fun chunk => chunk + plat.wordSize) memory

namespace HeapState

section
variable (heap : HeapState)

def next (chunk : Nat) : Nat := heap.memory (chunk + plat.wordSize)

def store (cell word : Nat) : HeapState :=
  { heap with memory := Function.update heap.memory cell word }

def current : Nat :=
  match heap.chunkpp with
  | none => heap.freelist
  | some chunk => heap.next plat chunk

def setCurrent (link : Nat) : HeapState :=
  match heap.chunkpp with
  | none => { heap with freelist := link }
  | some chunk => heap.store (chunk + plat.wordSize) link

/-! ## The search -/

def splitChunk (n found : Nat) : HeapState :=
  let len := heap.memory found
  let rem := found + n
  let heap := heap.store rem (len - n)
  if plat.minObjectSize ≤ len - n then
    let heap := heap.store (rem + plat.wordSize) (heap.next plat found)
    heap.setCurrent plat rem
  else
    heap.setCurrent plat (heap.next plat found)

end

def searchStep (n : Nat) (search : HeapState × Option Nat) : HeapState × Option Nat :=
  let heap := search.1
  let chunk := heap.current plat
  let len := heap.memory chunk
  if len = n then
    (heap.setCurrent plat (heap.next plat chunk), some chunk)
  else if n < len then
    (heap.splitChunk plat n chunk, some chunk)
  else
    ({ heap with chunkpp := some chunk }, none)

variable (heap : HeapState)

def search (n : Nat) : HeapState × Option Nat :=
  whileLoop (fun search => search.2.isNone && search.1.current plat != 0)
    (searchStep plat n) heap.limit (heap, none)

def gotIt (n found : Nat) : HeapState :=
  { heap with
    heapfree := heap.heapfree - n
    memory := fun cell =>
      if cell = found then
        n + 1
      else if found + plat.headerSize ≤ cell ∧ cell < found + n then
        0
      else
        heap.memory cell }

/-! ## Growth -/

def lastChunk : Nat :=
  whileLoop (fun chunk => heap.next plat chunk != 0) (heap.next plat) heap.limit heap.freelist

/-- The pointer and `uintptr_t` additions wrap. -/
def growth (min : Int) : Nat :=
  let half := (heap.limit - heap.base) / 2
  let delta := if half < plat.toWord min then plat.toWord min else half
  let delta :=
    if heap.max < (heap.limit + delta) % plat.wordLimit then heap.max - heap.limit else delta
  delta / objectGrain * objectGrain

def expandHeap (min : Int) : HeapState :=
  let delta := heap.growth plat min
  let new := heap.limit
  let heap := (heap.store new delta).store (new + plat.wordSize) 0
  let heap :=
    if heap.freelist ≠ 0 then
      heap.store (heap.lastChunk plat + plat.wordSize) new
    else
      { heap with freelist := new }
  { heap with
    limit := (heap.limit + delta) % plat.wordLimit
    heapfree := (heap.heapfree + delta) % plat.wordLimit }

end HeapState

/-! ## `gcMalloc` -/

inductive FailureState
  | gc
  | runFinalizers
  | throwOom
  deriving DecidableEq

/-- What the collector does in its calls, which are numbered: `gc0(mark_soft_refs, compact)`
leaves a heap and returns the size of the largest free block. -/
abbrev Gc0 := Nat → HeapState → Bool → Bool → HeapState × Nat

/-- How a call ends. `fault`: a store outside of the memory that is reserved for the heap. -/
inductive Outcome
  | block (addr : Nat)
  | outOfMemory
  | fault
  deriving DecidableEq

/-- A call of `gcMalloc`. `expansions` has the arguments of the calls of `expandHeap`. -/
structure Malloc where
  heap : HeapState
  state : FailureState
  collections : Nat
  expansions : List Int
  outcome : Option Outcome

namespace Malloc

variable (gc0 : Gc0)

section
variable (malloc : Malloc)

def collect (soft compact : Bool) : Malloc × Nat :=
  let (heap, largest) := gc0 malloc.collections malloc.heap soft compact
  ({ malloc with heap, collections := malloc.collections + 1 }, largest)

def enoughFree (n : Int) (largest : Nat) : Bool :=
  plat.toWord n ≤ largest &&
    malloc.heap.limit - malloc.heap.base ≤ malloc.heap.heapfree * 4 % plat.wordLimit

def expand (n : Int) : Malloc :=
  { malloc with
    heap := malloc.heap.expandHeap plat n
    expansions := malloc.expansions ++ [n]
    -- the fields `header` and `next` of the new chunk
    outcome :=
      if malloc.heap.limit + 2 * plat.wordSize ≤ malloc.heap.max then
        malloc.outcome
      else
        some .fault }

/-- The part at `case run_finalizers`. No other thread has changed the state while the finalizers
were run. -/
def runFinalizers (n : Int) : Malloc :=
  let (malloc, largest) := malloc.collect gc0 true true
  if malloc.enoughFree plat n largest then
    { malloc with state := .gc }
  else if malloc.heap.limit < malloc.heap.max then
    { malloc.expand plat n with state := .gc }
  else
    let (malloc, largest) := malloc.collect gc0 false true
    if plat.toWord n ≤ largest then
      { malloc with state := .gc }
    else
      { malloc with state := .throwOom, outcome := some .outOfMemory }

def failed (n : Int) : Malloc :=
  match malloc.state with
  | .gc =>
    let (malloc, largest) := malloc.collect gc0 true false
    if malloc.enoughFree plat n largest then
      malloc
    else
      { malloc with state := .runFinalizers }.runFinalizers plat gc0 n
  | .runFinalizers => malloc.runFinalizers plat gc0 n
  | .throwOom => { malloc with state := .gc, outcome := some .outOfMemory }

end

def round (n : Int) (malloc : Malloc) : Malloc :=
  match malloc.heap.search plat (plat.toWord n) with
  | (heap, some found) =>
    { malloc with
      heap := heap.gotIt plat (plat.toWord n) found
      outcome := some (.block (found + plat.headerSize)) }
  | (heap, none) => { malloc with heap }.failed plat gc0 n

def start (heap : HeapState) (state : FailureState) : Malloc where
  heap := heap
  state := state
  collections := 0
  expansions := []
  outcome := none

end Malloc

def roundedSize (len : Int) : Int :=
  toInt (plat.toWord (len + plat.headerSize + objectGrain - 1) / objectGrain * objectGrain : Nat)

def gcMalloc (gc0 : Gc0) (heap : HeapState) (state : FailureState) (len : Int) (fuel : Nat) :
    Malloc :=
  whileLoop (fun malloc => malloc.outcome.isNone)
    (Malloc.round plat gc0 (roundedSize plat len)) fuel (.start heap state)

/-! ## Arrays -/

/-- The length that `allocArray` asks `gcMalloc` for, or `none` if it throws an
`OutOfMemoryError`. -/
def allocArray (size elSize : Int) : Option Int :=
  if (intMax - plat.wordSize - plat.objectSize) / plat.toWord elSize < plat.toWord size then
    none
  else
    some (toInt (size * elSize + plat.wordSize + plat.objectSize))

def arrayBytes (size elSize : Int) : Int := size * elSize + plat.wordSize + plat.objectSize

end

/-! ## Sizes of requests -/

section
variable {plat : Platform}

theorem toInt_of_range {value : Int} (low : 0 ≤ value) (high : value ≤ intMax) :
    toInt value = value := by
  simp only [intMax] at high
  rw [toInt, bmod_eq_of_le (by omega) (by omega)]

theorem toWord_of_range {value : Int} (low : 0 ≤ value) (high : value ≤ intMax) :
    plat.toWord value = value.toNat := by
  have large : (intMax : Int) < plat.wordLimit := by
    rcases plat.isWord with word | word <;>
      simp only [Platform.wordLimit, word, intMax] <;> decide
  rw [Platform.toWord, emod_eq_of_lt low (by omega)]

theorem headerSize_cases (plat : Platform) : plat.headerSize = 4 ∨ plat.headerSize = 8 := by
  rcases plat.isWord with word | word <;> simp [Platform.headerSize, word]

theorem dvd_roundedSize (plat : Platform) (len : Int) :
    (objectGrain : Int) ∣ roundedSize plat len := by
  have same := @Int.bmod_emod
    (plat.toWord (len + plat.headerSize + objectGrain - 1) / objectGrain * objectGrain : Nat)
    (2 ^ 32)
  simp only [roundedSize, toInt, objectGrain] at same ⊢
  omega

theorem roundedSize_eq {len : Int} (low : 0 ≤ len) (high : len ≤ intMax) :
    roundedSize plat len = toInt ((len + plat.headerSize + 7).toNat / 8 * 8 : Nat) := by
  have header := headerSize_cases plat
  have small : len + plat.headerSize + 7 < plat.wordLimit := by
    simp only [intMax] at high
    rcases plat.isWord with word | word <;> simp only [Platform.wordLimit, word] <;> omega
  rw [roundedSize, Platform.toWord, emod_eq_of_lt (by simp only [objectGrain]; omega)
    (by simp only [objectGrain]; omega)]
  simp only [objectGrain]
  congr 4
  omega

theorem roundedSize_of_range {len : Int} (low : 0 ≤ len)
    (high : len + plat.headerSize + objectGrain - 1 ≤ intMax) :
    0 < roundedSize plat len ∧ roundedSize plat len ≤ intMax ∧
      (objectGrain : Int) ∣ roundedSize plat len ∧
        len + plat.headerSize ≤ roundedSize plat len := by
  have header := headerSize_cases plat
  simp only [objectGrain, intMax] at high
  rw [roundedSize_eq low (by simp only [intMax]; omega), toInt_of_range (by omega)
    (by simp only [intMax]; omega)]
  simp only [objectGrain, intMax]
  refine ⟨?_, ?_, ?_, ?_⟩ <;> omega

theorem roundedSize_neg {len : Int} (isInt : len ≤ intMax)
    (exceeds : intMax < len + plat.headerSize + objectGrain - 1) :
    roundedSize plat len < 0 := by
  have header := headerSize_cases plat
  simp only [objectGrain, intMax] at exceeds isInt
  rw [roundedSize_eq (by omega) (by simp only [intMax]; omega), toInt]
  have low : 2 ^ 31 ≤ (len + plat.headerSize + 7).toNat / 8 * 8 := by omega
  have high : (len + plat.headerSize + 7).toNat / 8 * 8 < 2 ^ 32 := by omega
  rw [bmod_def, if_neg (by omega)]
  omega

theorem allocArray_eq {size : Int} (low : 0 ≤ size) (high : size ≤ intMax)
    (isElement : elSize = 1 ∨ elSize = 2 ∨ elSize = 4 ∨ elSize = 8) :
    allocArray plat size elSize =
      if arrayBytes plat size elSize ≤ intMax then
        some (arrayBytes plat size elSize)
      else
        none := by
  have isSize : plat.toWord size = size.toNat := toWord_of_range low high
  have isElSize : plat.toWord elSize = elSize.toNat := by
    apply toWord_of_range <;> rcases isElement with rfl | rfl | rfl | rfl <;> decide
  have positive : 0 < elSize.toNat := by omega
  have small : plat.wordSize + plat.objectSize ≤ intMax := by
    rcases plat.isWord with word | word <;>
      simp only [Platform.objectSize, word, intMax] <;> decide
  have product : (size.toNat * elSize.toNat : Nat) = size * elSize := by
    rw [natCast_mul, toNat_of_nonneg low, toNat_of_nonneg (by omega)]
  have guard : (intMax - plat.wordSize - plat.objectSize) / elSize.toNat < size.toNat ↔
      intMax - plat.wordSize - plat.objectSize < size.toNat * elSize.toNat :=
    Nat.div_lt_iff_lt_mul positive
  rw [allocArray, isSize, isElSize, arrayBytes]
  by_cases fits : size * elSize + plat.wordSize + plat.objectSize ≤ intMax
  · rw [if_neg (mt guard.mp (by omega)), if_pos fits, toInt_of_range (by omega) fits]
  · rw [if_pos (guard.mpr (by omega)), if_neg fits]

/-! ## Expansions -/

namespace Malloc

variable {gc0 : Gc0}

theorem runFinalizers_expansions {malloc : Malloc} (pre : ∀ min ∈ malloc.expansions, min = n) :
    ∀ min ∈ (malloc.runFinalizers plat gc0 n).expansions, min = n := by
  have post : ∀ min ∈ malloc.expansions ++ [n], min = n := by
    intro min mem
    rcases List.mem_append.mp mem with earlier | last
    · exact pre min earlier
    · exact List.mem_singleton.mp last
  unfold runFinalizers
  dsimp only [collect]
  split
  · exact pre
  · split
    · exact post
    · split
      · exact pre
      · exact pre

theorem round_expansions {malloc : Malloc} (pre : ∀ min ∈ malloc.expansions, min = n) :
    ∀ min ∈ (malloc.round plat gc0 n).expansions, min = n := by
  unfold round
  split
  · exact pre
  · unfold failed
    dsimp only [collect]
    split
    · split
      · exact pre
      · exact runFinalizers_expansions pre
    · exact runFinalizers_expansions pre
    · exact pre

end Malloc

theorem gcMalloc_expansions (gc0 : Gc0) (heap : HeapState) (state : FailureState) (len : Int)
    (fuel : Nat) :
    ∀ min ∈ (gcMalloc plat gc0 heap state len fuel).expansions, min = roundedSize plat len := by
  refine whileLoop_invariant
    (fun malloc : Malloc => ∀ min ∈ malloc.expansions, min = roundedSize plat len) ?_ fuel ?_
  · intro malloc pre _
    exact Malloc.round_expansions pre
  · intro min mem
    cases mem

/-- The allocation fails, or the size of the block is right and the heap is never expanded by a
negative minimum. -/
def SoundSize (plat : Platform) (size elSize : Int) : Prop :=
  allocArray plat size elSize = none ∨ ∃ len, allocArray plat size elSize = some len ∧
    0 < roundedSize plat len ∧ roundedSize plat len ≤ intMax ∧
    (objectGrain : Int) ∣ roundedSize plat len ∧
    arrayBytes plat size elSize + plat.headerSize ≤ roundedSize plat len ∧
    ∀ gc0 heap state fuel,
      ∀ min ∈ (gcMalloc plat gc0 heap state len fuel).expansions, 0 ≤ min

/-- Sizes are right exactly if the bytes of the array, the header and the rounding do not bring
an `int` over its limit, or the bytes alone do. -/
theorem allocArray_roundedSize (plat : Platform) (size elSize : Int) (low : 0 ≤ size)
    (high : size ≤ intMax) (isElement : elSize = 1 ∨ elSize = 2 ∨ elSize = 4 ∨ elSize = 8) :
    SoundSize plat size elSize ↔
      arrayBytes plat size elSize + plat.headerSize + objectGrain - 1 ≤ intMax ∨
        intMax < arrayBytes plat size elSize := by
  rw [SoundSize, allocArray_eq low high isElement]
  constructor
  · intro sound
    by_contra defect
    rw [not_or, not_le, not_lt] at defect
    rw [if_pos defect.2] at sound
    obtain fails | ⟨len, isLen, sizePos, -⟩ := sound
    · cases fails
    · cases isLen
      exact absurd sizePos (roundedSize_neg defect.2 defect.1).not_gt
  · rintro (fits | exceeds)
    · have positive : 0 ≤ size * elSize := mul_nonneg low (by omega)
      have nonneg : 0 ≤ arrayBytes plat size elSize := by
        rw [arrayBytes]
        omega
      obtain ⟨sizePos, sizeLe, grain, large⟩ := roundedSize_of_range nonneg fits
      have isInt : arrayBytes plat size elSize ≤ intMax := by omega
      refine .inr ⟨_, if_pos isInt, sizePos, sizeLe, grain, large, ?_⟩
      intro gc0 heap state fuel min mem
      rw [gcMalloc_expansions gc0 heap state _ fuel min mem]
      exact sizePos.le
    · exact .inl (if_neg (not_le.mpr exceeds))

/-- The last array of bytes on a 32-bit machine with room for header and rounding, and the next
one. -/
theorem allocArray_roundedSize_limit :
    SoundSize ⟨4, .inl rfl⟩ 2147483624 1 ∧ ¬ SoundSize ⟨4, .inl rfl⟩ 2147483625 1 :=
  ⟨(allocArray_roundedSize ⟨4, .inl rfl⟩ 2147483624 1 (by decide) (by decide)
      (by decide)).mpr (by decide),
    (allocArray_roundedSize ⟨4, .inl rfl⟩ 2147483625 1 (by decide) (by decide)
      (by decide)).not.mpr (by decide)⟩

def fullHeap : HeapState where
  memory _ := 4096 + 1
  base := 4
  limit := 4100
  max := 8196
  freelist := 0
  chunkpp := none
  heapfree := 0

/-- On a 32-bit machine the guard lets the largest array of bytes pass, and the heap is expanded
with a negative minimum. -/
theorem allocArray_overflows : allocArray ⟨4, .inl rfl⟩ 2147483635 1 = some 2147483647 ∧
      roundedSize ⟨4, .inl rfl⟩ 2147483647 = -2147483640 ∧
      (gcMalloc ⟨4, .inl rfl⟩ (fun _ heap _ _ => (heap, 0)) fullHeap .gc 2147483647 1).expansions =
        [-2147483640] := by
  decide +kernel

end

end JamVM.Alloc
