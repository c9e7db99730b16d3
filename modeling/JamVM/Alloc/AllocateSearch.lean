import Mathlib.Data.List.Perm.Subperm
import JamVM.Alloc.Allocate

/-! # The search for a chunk

The search of `gcMalloc` ends at the first chunk that is large enough, and fails only if there is
none behind the place where it starts.
-/

namespace JamVM.Alloc

open List

variable {plat : Platform}

namespace HeapState

variable (plat) in
def takeChunk (heap : HeapState) (n chunk : Nat) : HeapState :=
  if heap.memory chunk = n then
    heap.setCurrent plat (heap.next plat chunk)
  else
    heap.splitChunk plat n chunk

def passed (heap : HeapState) (chunks : List Nat) : HeapState :=
  { heap with chunkpp := chunks.getLast?.or heap.chunkpp }

theorem passed_cons (heap : HeapState) (chunk : Nat) (rest : List Nat) :
    { heap with chunkpp := some chunk }.passed rest = heap.passed (chunk :: rest) := by
  cases rest with
  | nil => rfl
  | cons => simp [passed, getLast?_cons]

abbrev Ahead (plat : Platform) (heap : HeapState) (chunks : List Nat) : Prop :=
  FreeList plat heap.memory (heap.current plat) chunks 0

variable {heap : HeapState} {n : Nat}

theorem Ahead.step (ahead : heap.Ahead plat (chunk :: rest)) (small : heap.memory chunk < n) :
    searchStep plat n (heap, none) = ({ heap with chunkpp := some chunk }, none) ∧
      { heap with chunkpp := some chunk }.Ahead plat rest := by
  have isCurrent : heap.current plat = chunk := ahead.1
  refine ⟨?_, ahead.2⟩
  rw [searchStep]
  dsimp only
  rw [isCurrent, if_neg (by omega), if_neg (by omega)]

theorem searchLoop_pass (ahead : heap.Ahead plat (pre ++ post))
    (nonzero : ∀ chunk ∈ pre, chunk ≠ 0) (small : ∀ chunk ∈ pre, heap.memory chunk < n)
    (enough : pre.length ≤ fuel) : (heap.passed pre).Ahead plat post ∧
    whileLoop (fun search => search.2.isNone && search.1.current plat != 0)
        (searchStep plat n) fuel (heap, none) =
      whileLoop (fun search => search.2.isNone && search.1.current plat != 0)
        (searchStep plat n) (fuel - pre.length) (heap.passed pre, none) := by
  induction pre generalizing heap fuel with
  | nil => exact ⟨ahead, rfl⟩
  | cons chunk rest ih =>
    cases fuel with
    | zero => simp at enough
    | succ =>
      have isCurrent : heap.current plat = chunk := ahead.1
      obtain ⟨ran, later⟩ := ahead.step (small chunk mem_cons_self)
      have continues : chunk ≠ 0 := nonzero chunk mem_cons_self
      rw [whileLoop, if_pos (by simp [isCurrent, continues]), ran, ← passed_cons, length_cons,
        Nat.add_sub_add_right]
      exact ih later (fun other mem => nonzero other (mem_cons_of_mem _ mem))
        (fun other mem => small other (mem_cons_of_mem _ mem)) (by simpa using enough)

theorem searchLoop_none (ahead : heap.Ahead plat chunks) (nonzero : ∀ chunk ∈ chunks, chunk ≠ 0)
    (small : ∀ chunk ∈ chunks, heap.memory chunk < n) (enough : chunks.length ≤ fuel) :
    whileLoop (fun search => search.2.isNone && search.1.current plat != 0)
      (searchStep plat n) fuel (heap, none) = (heap.passed chunks, none) := by
  rw [← append_nil chunks] at ahead
  obtain ⟨ended, passes⟩ := searchLoop_pass ahead nonzero small enough
  have ended : (heap.passed chunks).current plat = 0 := ended
  rw [passes]
  cases fuel - chunks.length with
  | zero => rfl
  | succ => simp [whileLoop, ended]

theorem searchLoop_some (ahead : heap.Ahead plat (pre ++ chunk :: post))
    (nonzero : ∀ other ∈ pre ++ chunk :: post, other ≠ 0)
    (small : ∀ other ∈ pre, heap.memory other < n) (large : n ≤ heap.memory chunk)
    (enough : pre.length < fuel) :
    whileLoop (fun search => search.2.isNone && search.1.current plat != 0)
      (searchStep plat n) fuel (heap, none) =
        ((heap.passed pre).takeChunk plat n chunk, some chunk) := by
  obtain ⟨later, passes⟩ := searchLoop_pass ahead
    (fun other mem => nonzero other (mem_append_left _ mem)) small enough.le
  have isCurrent : (heap.passed pre).current plat = chunk := later.1
  have continues : chunk ≠ 0 := nonzero chunk (by simp)
  have found : searchStep plat n (heap.passed pre, none) =
      ((heap.passed pre).takeChunk plat n chunk, some chunk) := by
    rw [searchStep, takeChunk]
    dsimp only
    rw [isCurrent]
    have large : n ≤ (heap.passed pre).memory chunk := large
    split
    · rfl
    · rw [if_pos (by omega)]
  obtain ⟨left, isLeft⟩ : ∃ left, fuel - pre.length = left + 1 := ⟨fuel - pre.length - 1, by omega⟩
  rw [passes, isLeft, whileLoop, if_pos (by simp [isCurrent, continues]), found]
  cases left with
  | zero => rfl
  | succ => simp [whileLoop]

end HeapState

/-! ## Arranged heaps -/

/-- The heap is tiled by blocks, and the free list has some of the free blocks in the order of
their addresses. The search has passed the first of them. Only the last block of the heap may be
on the list although it is too small. -/
structure Arranged (plat : Platform) (heap : HeapState) (blocks : List Tile)
    (passed ahead : List Nat) : Prop where
  positive : 0 < heap.base
  tiled : Tiles heap.memory heap.limit heap.base blocks
  linked : FreeList plat heap.memory heap.freelist (passed ++ ahead) 0
  free : ∀ chunk ∈ passed ++ ahead, ∃ block ∈ blocks, block.address = chunk ∧
    hdrAlloced block.header = false ∧ (plat.minObjectSize ≤ block.size ∨ block.stop = heap.limit)
  ordered : (passed ++ ahead).Pairwise (· < ·)
  position : heap.chunkpp = passed.getLast?

def NoneFits (blocks : List Tile) (n : Nat) : Prop :=
  ∀ block ∈ blocks, hdrAlloced block.header = false → block.size < n

namespace Arranged

variable {heap : HeapState} {blocks : List Tile} {passed ahead : List Nat} {n : Nat}

section
variable (arranged : Arranged plat heap blocks passed ahead)
include arranged

theorem header_eq (mem : block ∈ blocks) (isFree : hdrAlloced block.header = false) :
    heap.memory block.address = block.size := by
  rw [arranged.tiled.header mem, Tile.size, blockSize, isFree]
  rfl

theorem chunk_bounds (mem : chunk ∈ passed ++ ahead) : chunk ≠ 0 ∧ chunk < heap.limit := by
  obtain ⟨block, isBlock, rfl, -⟩ := arranged.free chunk mem
  have bounds := arranged.tiled.bounds isBlock
  have size := (arranged.tiled.valid isBlock).positive
  have positive := arranged.positive
  rw [Tile.stop] at bounds
  omega

theorem length_le : (passed ++ ahead).length ≤ heap.limit := by
  have distinct : (passed ++ ahead).Nodup := arranged.ordered.imp fun less => less.ne
  have inside : passed ++ ahead ⊆ range heap.limit := fun chunk mem =>
    mem_range.mpr (arranged.chunk_bounds mem).2
  simpa using (Nodup.subperm distinct inside).length_le

theorem isAhead : heap.Ahead plat ahead := by
  obtain ⟨middle, first, second⟩ := arranged.linked.split
  have isCurrent : heap.current plat = middle := by
    rw [HeapState.current, arranged.position]
    exact first.last_link
  rw [HeapState.Ahead, isCurrent]
  exact second

theorem search_none (small : ∀ chunk ∈ ahead, heap.memory chunk < n) :
    heap.search plat n = (heap.passed ahead, none) := by
  have bound := arranged.length_le
  rw [length_append] at bound
  exact HeapState.searchLoop_none arranged.isAhead
    (fun chunk mem => (arranged.chunk_bounds (mem_append_right _ mem)).1) small
    (by omega)

theorem pass (isAhead : ahead = pre ++ post) :
    Arranged plat (heap.passed pre) blocks (passed ++ pre) post := by
  have same : passed ++ pre ++ post = passed ++ ahead := by rw [isAhead, append_assoc]
  refine ⟨arranged.positive, arranged.tiled, same ▸ arranged.linked, same ▸ arranged.free,
    same ▸ arranged.ordered, ?_⟩
  rw [HeapState.passed, getLast?_append]
  rw [arranged.position]

theorem search_some (mem : chunk ∈ ahead) (large : n ≤ heap.memory chunk) :
    ∃ pre found post, ahead = pre ++ found :: post ∧ n ≤ heap.memory found ∧
      heap.search plat n = ((heap.passed pre).takeChunk plat n found, some found) := by
  have bound := arranged.length_le
  cases isFound : ahead.find? fun chunk => n ≤ heap.memory chunk with
  | none =>
    have none := find?_eq_none.mp isFound chunk mem
    simp [large] at none
  | some found =>
    obtain ⟨fits, pre, post, rfl, small⟩ := find?_eq_some_iff_append.mp isFound
    refine ⟨pre, found, post, rfl, of_decide_eq_true fits, ?_⟩
    simp only [length_append, length_cons] at bound
    apply HeapState.searchLoop_some arranged.isAhead
    · intro other isOther
      exact (arranged.chunk_bounds (mem_append_right _ isOther)).1
    · intro other isOther
      simpa using small other isOther
    · exact of_decide_eq_true fits
    · omega

end

end Arranged

end JamVM.Alloc
