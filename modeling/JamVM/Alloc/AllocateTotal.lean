import JamVM.Alloc.AllocateSearch

/-! # Allocation comes to an end

Every round of `gcMalloc` that finds no chunk and does not give up has made sure that the next
search succeeds, or has expanded the heap.
-/

namespace JamVM.Alloc

open Nat
open Tile hiding stop
open List
open Function

variable {plat : Platform}

/-! ## Collected heaps -/

section
variable (plat)

def listedChunks (blocks : List Tile) : List Nat :=
  (blocks.filter fun block =>
    !hdrAlloced block.header && plat.minObjectSize ≤ block.size).map address

def largestFree (blocks : List Tile) : Nat :=
  ((blocks.filter fun block => !hdrAlloced block.header).map Tile.size).foldr max 0

structure Collected (pre post : HeapState) (largest : Nat) : Prop where
  base : post.base = pre.base
  limit : post.limit = pre.limit
  max : post.max = pre.max
  chunkpp : post.chunkpp = none
  freelist : ∃ blocks, Tiles post.memory post.limit post.base blocks ∧
    FreeList plat post.memory post.freelist (listedChunks plat blocks) 0 ∧
      largest = largestFree blocks

def Consistent (gc0 : Gc0) : Prop :=
  ∀ call heap soft compact blocks passed ahead, Arranged plat heap blocks passed ahead →
      Collected plat heap (gc0 call heap soft compact).1 (gc0 call heap soft compact).2

end

variable {blocks : List Tile}

theorem largestFree_le (mem : block ∈ blocks)
    (isFree : hdrAlloced block.header = false) : block.size ≤ largestFree blocks := by
  induction blocks with
  | nil => cases mem
  | cons first rest ih =>
    rw [largestFree, filter_cons]
    rcases mem_cons.mp mem with rfl | inRest
    · rw [if_pos (by simp [isFree])]
      exact le_max_left _ _
    · split
      · exact (ih inRest).trans (le_max_right _ _)
      · exact ih inRest

theorem largestFree_mem (positive : 0 < largestFree blocks) :
    ∃ block ∈ blocks, hdrAlloced block.header = false ∧ block.size = largestFree blocks := by
  induction blocks with
  | nil => exact absurd positive (by decide)
  | cons first rest ih =>
    have inRest (larger : 0 < largestFree rest) :
        ∃ block ∈ first :: rest, hdrAlloced block.header = false ∧
          block.size = largestFree rest := by
      obtain ⟨block, mem, facts⟩ := ih larger
      exact ⟨block, mem_cons_of_mem _ mem, facts⟩
    cases isAlloced : hdrAlloced first.header with
    | true =>
      have same : largestFree (first :: rest) = largestFree rest := by simp [largestFree, isAlloced]
      rw [same] at positive ⊢
      exact inRest positive
    | false =>
      have isMax : largestFree (first :: rest) = max first.size (largestFree rest) := by
        simp [largestFree, isAlloced]
      rw [isMax] at positive ⊢
      rcases le_total (largestFree rest) first.size with first_larger | rest_larger
      · rw [max_eq_left first_larger]
        exact ⟨first, mem_cons_self, isAlloced, rfl⟩
      · rw [max_eq_right rest_larger] at positive ⊢
        exact inRest positive

theorem Tiles.ordered (tiled : Tiles memory stop start tiles) :
    tiles.Pairwise fun tile other => tile.address < other.address := by
  induction tiles generalizing start with
  | nil => exact .nil
  | cons tile rest ih =>
    obtain ⟨-, -, valid, later⟩ := tiled
    refine pairwise_cons.mpr ⟨?_, ih later⟩
    intro other mem
    have bound := (later.bounds mem).1
    have positive := valid.positive
    rw [Tile.stop] at bound
    omega

theorem mem_listedChunks :
    chunk ∈ listedChunks plat blocks ↔ ∃ block ∈ blocks, block.address = chunk ∧
      hdrAlloced block.header = false ∧ plat.minObjectSize ≤ block.size := by
  constructor
  · intro mem
    obtain ⟨block, isBlock, rfl⟩ := mem_map.mp mem
    obtain ⟨isMember, facts⟩ := mem_filter.mp isBlock
    exact ⟨block, isMember, rfl, by simpa using facts⟩
  · rintro ⟨block, isMember, rfl, facts⟩
    exact mem_map.mpr ⟨block, mem_filter.mpr ⟨isMember, by simpa using facts⟩, rfl⟩

theorem Collected.arranged (collected : Collected plat pre post largest) (positive : 0 < pre.base) :
    ∃ blocks, Arranged plat post blocks [] (listedChunks plat blocks) ∧
      largest = largestFree blocks := by
  obtain ⟨blocks, tiled, linked, isLargest⟩ := collected.freelist
  refine ⟨blocks, ⟨collected.base ▸ positive, tiled, linked, fun chunk mem => ?_,
    pairwise_map.mpr (tiled.ordered.filter _), collected.chunkpp⟩, isLargest⟩
  obtain ⟨block, isBlock, isChunk, isFree, large⟩ := mem_listedChunks.mp mem
  exact ⟨block, isBlock, isChunk, isFree, .inl large⟩

theorem exists_chunk {heap : HeapState} (tiled : Tiles heap.memory heap.limit heap.base blocks)
    (minimal : plat.minObjectSize ≤ n) (fits : n ≤ largestFree blocks) :
    ∃ chunk ∈ listedChunks plat blocks, n ≤ heap.memory chunk := by
  have headerSize := plat.headerSize_lt_minObjectSize
  obtain ⟨block, mem, isFree, isSize⟩ := largestFree_mem (show 0 < largestFree blocks by omega)
  refine ⟨block.address, mem_listedChunks.mpr ⟨block, mem, rfl, isFree, by omega⟩, ?_⟩
  have header := tiled.header mem
  rw [Tile.size, blockSize, isFree] at isSize
  simp only [Bool.false_eq_true, ↓reduceIte] at isSize
  omega

/-! ## Expansion -/

namespace HeapState

structure Bounded (plat : Platform) (heap : HeapState) : Prop where
  below : heap.limit ≤ heap.max
  grain : objectGrain ∣ heap.max - heap.base
  isAddress : heap.max < plat.wordLimit

theorem Bounded.congr {heap post : HeapState} (bounded : heap.Bounded plat)
    (base : post.base = heap.base) (max : post.max = heap.max) (below : post.limit ≤ heap.max) :
    post.Bounded plat :=
  ⟨max ▸ below, by rw [base, max]; exact bounded.grain, max ▸ bounded.isAddress⟩

/-- There is room for the first two words of a new chunk, and the end of the heap does not wrap
around. -/
structure Expandable (plat : Platform) (heap : HeapState) (n : Nat) : Prop where
  chunkFits : heap.limit + 2 * plat.wordSize ≤ heap.max
  halfFits : heap.limit + (heap.limit - heap.base) / 2 < plat.wordLimit
  requestFits : heap.limit + n < plat.wordLimit

theorem Expandable.congr {heap post : HeapState} (expandable : heap.Expandable plat n)
    (base : post.base = heap.base) (limit : post.limit = heap.limit) (max : post.max = heap.max) :
    post.Expandable plat n := by
  refine ⟨?_, ?_, ?_⟩ <;> simp only [base, limit, max]
  · exact expandable.chunkFits
  · exact expandable.halfFits
  · exact expandable.requestFits

theorem growth_spec {heap : HeapState} {n : Int} (low : objectGrain ≤ n) (high : n ≤ intMax)
    (rounded : (objectGrain : Int) ∣ n) (bounded : heap.Bounded plat)
    (expandable : heap.Expandable plat n.toNat) (baseLe : heap.base ≤ heap.limit)
    (grain : objectGrain ∣ heap.limit - heap.base) (below : heap.limit < heap.max) :
    objectGrain ∣ heap.growth plat n ∧ 0 < heap.growth plat n ∧
      heap.limit + heap.growth plat n ≤ heap.max ∧
      (n.toNat ≤ heap.growth plat n ∨ heap.limit + heap.growth plat n = heap.max) := by
  have halfFits := expandable.halfFits
  have requestFits := expandable.requestFits
  have maxGrain := bounded.grain
  have isAddress := bounded.isAddress
  simp only [objectGrain] at low grain maxGrain rounded
  have isWord : plat.toWord n = n.toNat := toWord_of_range (by omega) high
  rw [growth, isWord]
  simp only [objectGrain]
  generalize isDelta : (if (heap.limit - heap.base) / 2 < n.toNat then n.toNat
    else (heap.limit - heap.base) / 2) = delta
  have deltaLe : n.toNat ≤ delta ∧ heap.limit + delta < plat.wordLimit := by
    split at isDelta <;> omega
  rw [mod_eq_of_lt deltaLe.2]
  split <;> omega

end HeapState

namespace Arranged

variable {heap : HeapState} {blocks : List Tile} {passed ahead chunks : List Nat}

theorem lastChunk_eq (linked : FreeList plat memory start (chunks ++ [last]) 0)
    (nonzero : ∀ chunk ∈ chunks ++ [last], chunk ≠ 0) (enough : chunks.length ≤ fuel) :
    whileLoop (fun chunk => memory (chunk + plat.wordSize) != 0)
      (fun chunk => memory (chunk + plat.wordSize)) fuel start = last := by
  induction chunks generalizing start fuel with
  | nil =>
    have isStart : start = last := linked.1
    have ended : memory (last + plat.wordSize) = 0 := linked.2
    subst isStart
    cases fuel with
    | zero => rfl
    | succ => simp [whileLoop, ended]
  | cons chunk rest ih =>
    have isStart : start = chunk := linked.1
    subst isStart
    have later : FreeList plat memory (memory (start + plat.wordSize))
        (rest ++ [last]) 0 := linked.2
    have more : memory (start + plat.wordSize) ≠ 0 := by
      cases rest with
      | nil => exact later.1 ▸ nonzero last (by simp)
      | cons other => exact later.1 ▸ nonzero other (by simp)
    cases fuel with
    | zero => simp at enough
    | succ =>
      rw [whileLoop, if_pos (by simp [more])]
      exact ih later (fun other mem => nonzero other (mem_cons_of_mem _ mem))
        (by simpa using enough)

theorem link_inside (arranged : Arranged plat heap blocks passed ahead)
    (mem : chunk ∈ passed ++ ahead) (large : plat.minObjectSize ≤ heap.memory chunk) :
    ∃ block ∈ blocks, block.address = chunk ∧ chunk < chunk + plat.wordSize ∧
      chunk + plat.wordSize < block.stop ∧ block.stop ≤ heap.limit := by
  obtain ⟨block, isBlock, rfl, isFree, -⟩ := arranged.free chunk mem
  have header := plat.headerSize_lt_minObjectSize
  rw [Platform.headerSize] at header
  rw [arranged.header_eq isBlock isFree] at large
  have bounds := arranged.tiled.bounds isBlock
  have word := plat.isWord
  refine ⟨block, isBlock, rfl, by omega, ?_, bounds.2⟩
  rw [Tile.stop]
  omega

theorem linked_append (linked : FreeList plat memory start (front ++ [last]) 0)
    (same : ∀ chunk ∈ front, changed (chunk + plat.wordSize) = memory (chunk + plat.wordSize))
    (atLast : changed (last + plat.wordSize) = new)
    (atNew : changed (new + plat.wordSize) = 0) :
    FreeList plat changed start (front ++ [last] ++ [new]) 0 := by
  obtain ⟨middle, first, second⟩ := linked.split
  have isLast : middle = last := second.1
  rw [append_assoc]
  exact (first.congr same).append ⟨isLast, atLast, atNew⟩

structure Expanded (plat : Platform) (heap post : HeapState) (chunks : List Nat)
    (delta : Nat) : Prop where
  base : post.base = heap.base
  limit : post.limit = heap.limit + delta
  max : post.max = heap.max
  chunkpp : post.chunkpp = heap.chunkpp
  header : post.memory heap.limit = delta
  same : ∀ cell < heap.limit, (∀ chunk, chunks.getLast? = some chunk →
    cell ≠ chunk + plat.wordSize) → post.memory cell = heap.memory cell
  linked : FreeList plat post.memory post.freelist (chunks ++ [heap.limit]) 0

section
variable (arranged : Arranged plat heap blocks passed ahead)
  (large : ∀ chunk ∈ passed ++ ahead, plat.minObjectSize ≤ heap.memory chunk)
include arranged large

theorem expandHeap_spec (below : heap.limit + heap.growth plat n < plat.wordLimit) :
    Expanded plat heap (heap.expandHeap plat n) (passed ++ ahead) (heap.growth plat n) := by
  have word := plat.isWord
  have length := arranged.length_le
  have nonzero : ∀ chunk ∈ passed ++ ahead, chunk ≠ 0 := fun chunk mem =>
    (arranged.chunk_bounds mem).1
  have below_limit : ∀ chunk ∈ passed ++ ahead, chunk + plat.wordSize < heap.limit := by
    intro chunk mem
    obtain ⟨block, -, -, -, inside, high⟩ := arranged.link_inside mem (large chunk mem)
    omega
  have ordered := arranged.ordered
  have linked := arranged.linked
  generalize passed ++ ahead = chunks at *
  generalize isStored : (heap.store heap.limit (heap.growth plat n)).store
    (heap.limit + plat.wordSize) 0 = stored
  have atNew : stored.memory (heap.limit + plat.wordSize) = 0 := by
    rw [← isStored]
    exact update_self ..
  have atHeader : stored.memory heap.limit = heap.growth plat n := by
    rw [← isStored]
    exact (update_of_ne (by omega) _ _).trans (update_self ..)
  have same : ∀ cell < heap.limit, stored.memory cell = heap.memory cell := by
    intro cell inside
    rw [← isStored]
    exact (update_of_ne (by omega) _ _).trans (update_of_ne (by omega) _ _)
  obtain ⟨base, limit, max, chunkpp, isFreelist⟩ : stored.base = heap.base ∧
      stored.limit = heap.limit ∧ stored.max = heap.max ∧ stored.chunkpp = heap.chunkpp ∧
        stored.freelist = heap.freelist := by
    rw [← isStored]
    exact ⟨rfl, rfl, rfl, rfl, rfl⟩
  have grown : (stored.limit + heap.growth plat n) % plat.wordLimit =
      heap.limit + heap.growth plat n := by
    rw [limit, mod_eq_of_lt below]
  rw [HeapState.expandHeap, isStored]
  rcases eq_nil_or_concat chunks with rfl | ⟨front, last, rfl⟩
  · have isEmpty : heap.freelist = 0 := linked
    rw [if_neg (by rw [isFreelist, isEmpty]; decide)]
    exact ⟨base, grown, max, chunkpp, atHeader, fun cell inside _ => same cell inside, rfl, atNew⟩
  · rw [concat_eq_append] at *
    have chained : FreeList plat stored.memory stored.freelist (front ++ [last]) 0 := by
      rw [isFreelist]
      exact linked.congr fun chunk mem => same _ (below_limit chunk mem)
    have isLast : stored.lastChunk plat = last := by
      refine Arranged.lastChunk_eq chained nonzero ?_
      rw [length_append] at length
      rw [← isStored]
      exact le_of_add_right_le length
    have isListed : stored.freelist ≠ 0 := by
      rw [isFreelist]
      cases front with
      | nil => exact linked.1 ▸ nonzero last (by simp)
      | cons chunk => exact linked.1 ▸ nonzero chunk (by simp)
    have ne : ∀ chunk ∈ front, chunk < last := by
      intro chunk mem
      exact (pairwise_append.mp ordered).2.2 chunk mem last (by simp)
    have atLast := below_limit last (by simp)
    rw [if_pos isListed, isLast]
    refine ⟨base, grown, max, chunkpp, ?_, ?_, ?_⟩
    · exact (update_of_ne (by omega) _ _).trans atHeader
    · intro cell inside notLink
      refine (update_of_ne ?_ _ _).trans (same cell inside)
      exact notLink last (by simp)
    · refine linked_append chained ?_ (update_self ..) ?_
      · intro chunk mem
        have := ne chunk mem
        exact update_of_ne (by omega) _ _
      · exact (update_of_ne (by omega) _ _).trans atNew

theorem expand (expanded : Expanded plat heap post (passed ++ ahead) delta)
    (grain : objectGrain ∣ delta) (grows : 0 < delta) :
    Arranged plat post (blocks ++ [Tile.free heap.limit (heap.limit + delta)]) passed
      (ahead ++ [heap.limit]) := by
  have size : heap.limit + delta - heap.limit = delta := Nat.add_sub_cancel_left ..
  have isGrain : objectGrain ∣ heap.limit + delta - heap.limit := size.symm ▸ grain
  have sameHeaders : ∀ block ∈ blocks, post.memory block.address = heap.memory block.address := by
    intro block isBlock
    have bounds := arranged.tiled.bounds isBlock
    have positive := (arranged.tiled.valid isBlock).positive
    refine expanded.same _ (by rw [Tile.stop] at bounds; omega) ?_
    intro chunk isLast
    have mem := mem_of_getLast? isLast
    obtain ⟨other, isOther, isChunk, low, high, -⟩ := arranged.link_inside mem (large chunk mem)
    rcases arranged.tiled.apart isBlock isOther with rfl | pre | behind
    · omega
    · rw [Tile.stop] at pre
      omega
    · omega
  have last : Tiles post.memory (heap.limit + delta) heap.limit
      [Tile.free heap.limit (heap.limit + delta)] :=
    ⟨rfl, by rw [expanded.header, Tile.free, size], free_valid isGrain (by omega),
      free_stop isGrain (by omega)⟩
  refine ⟨expanded.base ▸ arranged.positive, ?_, ?_, ?_, ?_,
    expanded.chunkpp.trans arranged.position⟩
  · rw [expanded.base, expanded.limit]
    exact (arranged.tiled.congr sameHeaders).append last
  · rw [← append_assoc]
    exact expanded.linked
  · rw [← append_assoc]
    intro chunk mem
    rcases mem_append.mp mem with old | isNew
    · obtain ⟨block, isBlock, isChunk, isFree, -⟩ := arranged.free chunk old
      have size := large chunk old
      rw [← isChunk, arranged.header_eq isBlock isFree] at size
      exact ⟨block, mem_append_left _ isBlock, isChunk, isFree, .inl size⟩
    · refine ⟨Tile.free heap.limit (heap.limit + delta), by simp,
        (mem_singleton.mp isNew).symm, free_alloced isGrain, .inr ?_⟩
      rw [free_stop isGrain (by omega), expanded.limit]
  · rw [← append_assoc]
    refine pairwise_append.mpr ⟨arranged.ordered, pairwise_singleton .., ?_⟩
    intro chunk mem new isNew
    rw [mem_singleton.mp isNew]
    exact (arranged.chunk_bounds mem).2

end

end Arranged

/-! ## The end of a call -/

section
variable (plat) (gc0 : Gc0)

def Served (n : Nat) (heap : HeapState) (addr : Nat) : Prop :=
  ∃ searched blocks passed ahead, Arranged plat searched blocks passed ahead ∧
    searched.base = heap.base ∧ searched.limit = heap.limit ∧ searched.max = heap.max ∧
    ∃ block ∈ blocks, hdrAlloced block.header = false ∧ n ≤ block.size ∧
      addr = block.address + plat.headerSize ∧ heap.memory block.address = n + 1 ∧
        ∀ cell, addr ≤ cell → cell < block.address + n → heap.memory cell = 0

def Exhausted (n : Nat) (heap : HeapState) : Prop :=
  heap.limit = heap.max ∧ (∃ call pre, heap = (gc0 call pre false true).1) ∧
    ∃ blocks, Tiles heap.memory heap.limit heap.base blocks ∧ NoneFits blocks n

def Concluded (n : Nat) (state : FailureState) (malloc : Malloc) : Prop :=
  (∃ addr, malloc.outcome = some (.block addr) ∧ Served plat n malloc.heap addr) ∨
    malloc.outcome = some .outOfMemory ∧ (state = .throwOom ∨ Exhausted gc0 n malloc.heap)

end

namespace Malloc

variable {gc0 : Gc0} {n : Int}

variable (plat gc0 n) in
def loop (fuel : Nat) (malloc : Malloc) : Malloc :=
  whileLoop (fun malloc => malloc.outcome.isNone) (round plat gc0 n) fuel malloc

variable {malloc : Malloc}

theorem loop_of_outcome (finished : malloc.outcome.isSome = true)
    (fuel : Nat) : malloc.loop plat gc0 n fuel = malloc := by
  have stops : malloc.outcome.isNone = false := by
    rw [Option.isNone_eq_false_iff]
    exact finished
  cases fuel with
  | zero => rfl
  | succ => rw [loop, whileLoop, if_neg (by rw [stops]; decide)]

theorem loop_round (unfinished : malloc.outcome = none) (fuel : Nat) :
    malloc.loop plat gc0 n (fuel + 1) = (malloc.round plat gc0 n).loop plat gc0 n fuel := by
  rw [loop, whileLoop, if_pos (by rw [unfinished]; rfl)]
  rfl

variable (plat gc0) in
def Concludes (n : Int) (state : FailureState) (malloc : Malloc) : Prop :=
  ∃ enough, ∀ fuel ≥ enough, Concluded plat gc0 n.toNat state (malloc.loop plat gc0 n fuel)

theorem Concludes.of_round {state : FailureState} (unfinished : malloc.outcome = none)
    (later : (malloc.round plat gc0 n).Concludes plat gc0 n state) :
    malloc.Concludes plat gc0 n state := by
  obtain ⟨enough, concluded⟩ := later
  refine ⟨enough + 1, ?_⟩
  intro fuel many
  obtain ⟨more, rfl⟩ : ∃ more, fuel = more + 1 := ⟨fuel - 1, by omega⟩
  rw [loop_round unfinished]
  exact concluded more (by omega)

theorem Concludes.of_concluded {state : FailureState}
    (concluded : Concluded plat gc0 n.toNat state malloc) :
    malloc.Concludes plat gc0 n state := by
  have finished : malloc.outcome.isSome = true := by
    rcases concluded with ⟨addr, isBlock, -⟩ | ⟨isNull, -⟩
    · rw [isBlock]
      rfl
    · rw [isNull]
      rfl
  refine ⟨0, fun fuel _ => ?_⟩
  rw [loop_of_outcome finished]
  exact concluded

end Malloc

namespace HeapState

theorem setCurrent_bounds (heap : HeapState) (link : Nat) :
    (heap.setCurrent plat link).base = heap.base ∧ (heap.setCurrent plat link).limit = heap.limit ∧
        (heap.setCurrent plat link).max = heap.max := by
  rw [setCurrent]
  split <;> exact ⟨rfl, rfl, rfl⟩

theorem takeChunk_bounds (heap : HeapState) (n chunk : Nat) :
    (heap.takeChunk plat n chunk).base = heap.base ∧
      (heap.takeChunk plat n chunk).limit = heap.limit ∧
        (heap.takeChunk plat n chunk).max = heap.max := by
  rw [takeChunk]
  split
  · exact setCurrent_bounds ..
  · rw [splitChunk]
    split <;> exact setCurrent_bounds ..

end HeapState

namespace Malloc

variable {gc0 : Gc0} {n : Int} {malloc : Malloc} {blocks : List Tile} {passed ahead : List Nat}

variable {chunk : Nat} {state : FailureState}

theorem round_found (gc0 : Gc0) (malloc : Malloc)
    (arranged : Arranged plat malloc.heap blocks passed ahead)
    (isWord : plat.toWord n = n.toNat) (mem : chunk ∈ ahead)
    (large : n.toNat ≤ malloc.heap.memory chunk) :
    ∃ pre found, found ∈ ahead ∧ n.toNat ≤ malloc.heap.memory found ∧
      malloc.round plat gc0 n = { malloc with
        heap := ((malloc.heap.passed pre).takeChunk plat n.toNat found).gotIt plat n.toNat found
        outcome := some (.block (found + plat.headerSize)) } := by
  obtain ⟨pre, found, post, isAhead, fits, searched⟩ := arranged.search_some mem large
  refine ⟨pre, found, by simp [isAhead], fits, ?_⟩
  rw [round, isWord, searched]

theorem round_served (arranged : Arranged plat malloc.heap blocks passed ahead)
    (isWord : plat.toWord n = n.toNat) (mem : chunk ∈ ahead)
    (large : n.toNat ≤ malloc.heap.memory chunk) (state : FailureState) :
    Concluded plat gc0 n.toNat state (malloc.round plat gc0 n) := by
  obtain ⟨pre, found, isAhead, fits, isRound⟩ := round_found gc0 malloc arranged isWord mem large
  obtain ⟨base, limit, max⟩ :
      ((malloc.heap.passed pre).takeChunk plat n.toNat found).base = malloc.heap.base ∧
        ((malloc.heap.passed pre).takeChunk plat n.toNat found).limit = malloc.heap.limit ∧
          ((malloc.heap.passed pre).takeChunk plat n.toNat found).max = malloc.heap.max :=
    HeapState.takeChunk_bounds ..
  rw [isRound]
  refine .inl ⟨found + plat.headerSize, rfl, malloc.heap, blocks, passed, ahead, arranged,
    base.symm, limit.symm, max.symm, ?_⟩
  obtain ⟨block, isBlock, isFound, isFree, -⟩ := arranged.free found (mem_append_right _ isAhead)
  have header := plat.isWord
  refine ⟨block, isBlock, isFree, ?_, by rw [isFound], ?_, ?_⟩
  · rw [← arranged.header_eq isBlock isFree, isFound]
    exact fits
  · dsimp only [HeapState.gotIt]
    rw [isFound, if_pos rfl]
  · intro cell low high
    rw [isFound] at high
    dsimp only [HeapState.gotIt]
    rw [Platform.headerSize] at low ⊢
    rw [if_neg (by omega), if_pos ⟨low, high⟩]

structure Proper (plat : Platform) (n : Int) : Prop where
  minimal : plat.minObjectSize ≤ n
  isInt : n ≤ intMax

section
variable (proper : Proper plat n)
include proper

theorem Proper.toWord : plat.toWord n = n.toNat :=
  toWord_of_range (by have := proper.minimal; omega) proper.isInt

theorem Proper.le_toNat : plat.minObjectSize ≤ n.toNat := by
  have := proper.minimal
  omega

theorem Proper.grain_le : (objectGrain : Int) ≤ n := by
  have minimal := proper.minimal
  rcases plat.isWord with word | word <;>
    simp [Platform.minObjectSize, Platform.objectSize, Platform.headerSize, objectGrain, word]
      at minimal ⊢ <;> omega

theorem concludes_of_collected (unfinished : malloc.outcome = none)
    (positive : 0 < pre.base) (collected : Collected plat pre malloc.heap largest)
    (fits : plat.toWord n ≤ largest) : malloc.Concludes plat gc0 n state := by
  obtain ⟨blocks, arranged, isLargest⟩ := collected.arranged positive
  rw [proper.toWord, isLargest] at fits
  obtain ⟨chunk, mem, large⟩ := exists_chunk arranged.tiled proper.le_toNat fits
  exact .of_round unfinished (.of_concluded (round_served arranged proper.toWord mem large state))

end

section

/-! A failed search ends if what follows an expansion does. -/

variable (sane : Consistent plat gc0) (proper : Proper plat n) (rounded : (objectGrain : Int) ∣ n)
  (arranged : Arranged plat malloc.heap blocks passed ahead)
  (bounded : malloc.heap.Bounded plat) (unfinished : malloc.outcome = none)
  (expanded : malloc.heap.limit < malloc.heap.max → ∀ next : Malloc, next.outcome = none →
    next.state = .gc → (∃ blocks passed ahead, Arranged plat next.heap blocks passed ahead) →
    next.heap.Bounded plat → next.heap.limit = next.heap.max → next.Concludes plat gc0 n state)
include sane proper rounded arranged bounded unfinished expanded

theorem runFinalizers_concludes
    (expandable : malloc.heap.limit < malloc.heap.max →
      (malloc.runFinalizers plat gc0 n).expansions ≠ malloc.expansions →
      malloc.heap.Expandable plat n.toNat) :
    (malloc.runFinalizers plat gc0 n).Concludes plat gc0 n state := by
  have first : Collected plat malloc.heap _ _ :=
    sane malloc.collections malloc.heap true true _ _ _ arranged
  rw [runFinalizers] at expandable ⊢
  dsimp only [collect] at expandable ⊢
  split
  · rename_i enough
    rw [enoughFree, Bool.and_eq_true, decide_eq_true_eq] at enough
    exact concludes_of_collected proper unfinished arranged.positive first enough.1
  · rename_i tooSmall
    rw [if_neg tooSmall] at expandable
    generalize (gc0 malloc.collections malloc.heap true true).1 = heap at *
    obtain ⟨blocks, isArranged, -⟩ := first.arranged arranged.positive
    have tiled := isArranged.tiled
    have isBounded : heap.Bounded plat :=
      bounded.congr first.base first.max (first.limit ▸ bounded.below)
    split
    · rename_i canGrow
      have below : malloc.heap.limit < malloc.heap.max := by rwa [← first.limit, ← first.max]
      have isExpandable : heap.Expandable plat n.toNat := by
        rw [if_pos canGrow] at expandable
        exact (expandable below (by simp [expand])).congr first.base first.limit first.max
      obtain ⟨grain, grows, high, enough⟩ := HeapState.growth_spec proper.grain_le proper.isInt
        rounded isBounded isExpandable tiled.start_le tiled.grain canGrow
      have large : ∀ chunk ∈ [] ++ listedChunks plat blocks,
          plat.minObjectSize ≤ heap.memory chunk := by
        intro chunk mem
        obtain ⟨block, isBlock, rfl, isFree, large⟩ := mem_listedChunks.mp mem
        rwa [isArranged.header_eq isBlock isFree]
      have isAddress := isBounded.isAddress
      have spec : Arranged.Expanded plat heap (heap.expandHeap plat n) _ _ :=
        isArranged.expandHeap_spec large (by omega)
      have isNext := isArranged.expand large spec grain grows
      dsimp only [expand]
      rw [if_pos isExpandable.chunkFits]
      rcases enough with fits | atMaximum
      · refine .of_round unfinished (.of_concluded (round_served isNext proper.toWord
          (mem_append_right _ (mem_singleton_self _)) ?_ state))
        exact fits.trans_eq spec.header.symm
      · exact expanded below _ unfinished rfl ⟨_, _, _, isNext⟩
          (isBounded.congr spec.base spec.max (spec.limit.trans_le high))
          (spec.limit.trans (atMaximum.trans spec.max.symm))
    · rename_i atMaximum
      have second : Collected plat heap _ _ :=
        sane (malloc.collections + 1) heap false true _ _ _ isArranged
      split
      · rename_i fits
        exact concludes_of_collected proper unfinished isArranged.positive second fits
      · rename_i exceeds
        obtain ⟨last, lastTiled, -, isLargest⟩ := second.freelist
        refine .of_concluded (.inr ⟨rfl, .inr ⟨?_, ⟨_, _, rfl⟩, last, lastTiled, ?_⟩⟩)
        · have := isBounded.below
          exact second.limit.trans ((by omega : heap.limit = heap.max).trans second.max.symm)
        · intro block mem isFree
          have bound := largestFree_le mem isFree
          rw [proper.toWord, isLargest] at exceeds
          omega

theorem failed_concludes (throwing : malloc.state = .throwOom → state = .throwOom)
    (expandable : malloc.heap.limit < malloc.heap.max →
      (malloc.failed plat gc0 n).expansions ≠ malloc.expansions →
      malloc.heap.Expandable plat n.toNat) :
    (malloc.failed plat gc0 n).Concludes plat gc0 n state := by
  cases isState : malloc.state with
  | gc =>
    have collected : Collected plat malloc.heap _ _ :=
      sane malloc.collections malloc.heap true false _ _ _ arranged
    simp only [failed, isState, collect] at expandable ⊢
    split
    · rename_i enough
      rw [enoughFree, Bool.and_eq_true, decide_eq_true_eq] at enough
      exact concludes_of_collected proper unfinished arranged.positive collected enough.1
    · rename_i tooSmall
      rw [if_neg tooSmall] at expandable
      obtain ⟨blocks, isArranged, -⟩ := collected.arranged arranged.positive
      have sameRoom (canGrow : (gc0 malloc.collections malloc.heap true false).1.limit <
          (gc0 malloc.collections malloc.heap true false).1.max) :
          malloc.heap.limit < malloc.heap.max := by rwa [← collected.limit, ← collected.max]
      refine runFinalizers_concludes sane proper rounded isArranged
        (bounded.congr collected.base collected.max (collected.limit ▸ bounded.below)) unfinished
        (fun canGrow => expanded (sameRoom canGrow)) fun canGrow expands => ?_
      exact (expandable (sameRoom canGrow) expands).congr collected.base collected.limit
        collected.max
  | runFinalizers =>
    simp only [failed, isState] at expandable ⊢
    exact runFinalizers_concludes sane proper rounded arranged bounded unfinished expanded
      expandable
  | throwOom =>
    simp only [failed, isState]
    exact .of_concluded (.inr ⟨rfl, .inl (throwing isState)⟩)

end

theorem concludes (sane : Consistent plat gc0) (proper : Proper plat n)
    (rounded : (objectGrain : Int) ∣ n)
    (arranged : ∃ blocks passed ahead, Arranged plat malloc.heap blocks passed ahead)
    (bounded : malloc.heap.Bounded plat) (unfinished : malloc.outcome = none)
    (throwing : malloc.state = .throwOom → state = .throwOom)
    (expandable : malloc.heap.limit < malloc.heap.max →
      (malloc.round plat gc0 n).expansions ≠ malloc.expansions →
      malloc.heap.Expandable plat n.toNat) :
    malloc.Concludes plat gc0 n state := by
  -- a second expansion would find the heap at its maximum
  generalize isRoom : malloc.heap.max - malloc.heap.limit = room
  induction room using Nat.strong_induction_on generalizing malloc with
  | h room ih =>
    obtain ⟨blocks, passed, ahead, arranged⟩ := arranged
    refine .of_round unfinished ?_
    by_cases fits : ∃ chunk ∈ ahead, n.toNat ≤ malloc.heap.memory chunk
    · obtain ⟨chunk, mem, large⟩ := fits
      exact .of_concluded (round_served arranged proper.toWord mem large state)
    · have small : ∀ chunk ∈ ahead, malloc.heap.memory chunk < n.toNat := by
        intro chunk mem
        by_contra large
        exact fits ⟨chunk, mem, by omega⟩
      have isRound : malloc.round plat gc0 n =
          { malloc with heap := malloc.heap.passed ahead }.failed plat gc0 n := by
        rw [round, proper.toWord, arranged.search_none small]
      rw [isRound] at expandable ⊢
      refine failed_concludes sane proper rounded (arranged.pass (append_nil _).symm)
        (bounded.congr rfl rfl bounded.below) unfinished ?_ throwing ?_
      · intro canGrow next nextUnfinished isGc isArranged nextBounded atMaximum
        have canGrow : malloc.heap.limit < malloc.heap.max := canGrow
        exact ih _ (by omega) isArranged nextBounded nextUnfinished
          (fun isThrowing => absurd (isGc.symm.trans isThrowing) (by decide))
          (fun below => absurd atMaximum below.ne) rfl
      · exact fun canGrow expands => (expandable canGrow expands).congr rfl rfl rfl

end Malloc

section

def freeAll (plat : Platform) : Gc0 := fun _ heap _ _ =>
  let size := heap.limit - heap.base
  ({ heap with
    memory := update (update heap.memory heap.base size) (heap.base + plat.wordSize) 0
    freelist := if plat.minObjectSize ≤ size then heap.base else 0
    chunkpp := none
    heapfree := size }, size)

theorem freeAll_consistent (plat : Platform) : Consistent plat (freeAll plat) := by
  intro call heap soft compact blocks passed ahead arranged
  have baseLe := arranged.tiled.start_le
  have grain := arranged.tiled.grain
  have word := plat.isWord
  have minimal := plat.headerSize_lt_minObjectSize
  refine ⟨rfl, rfl, rfl, rfl, ?_⟩
  dsimp only [freeAll]
  by_cases empty : heap.base = heap.limit
  · refine ⟨[], empty, ?_, ?_⟩
    · rw [if_neg (by omega)]
      rfl
    · simp [empty, largestFree]
  · have isFree := free_alloced grain
    have size := free_size grain
    refine ⟨[Tile.free heap.base heap.limit], ⟨rfl, ?_, free_valid grain (by omega),
      free_stop grain baseLe⟩, ?_, ?_⟩
    · exact (update_of_ne (by omega) _ _).trans (update_self ..)
    · by_cases large : plat.minObjectSize ≤ heap.limit - heap.base
      · simp only [listedChunks, isFree, size, large, filter_cons]
        exact ⟨rfl, update_self ..⟩
      · simp [listedChunks, isFree, size, large, Chain]
    · simp [largestFree, isFree, size]

theorem fullHeap_arranged : Arranged ⟨4, .inl rfl⟩ fullHeap [⟨4, 4097⟩] [] [] where
  positive := by decide
  tiled := by decide
  linked := rfl
  free := by simp
  ordered := .nil
  position := rfl

def highHeap : HeapState where
  memory _ := 4096 + 1
  base := 0xA0000004
  limit := 0xA0001004
  max := 0xA0002004
  freelist := 0
  chunkpp := none
  heapfree := 0

end

end JamVM.Alloc
