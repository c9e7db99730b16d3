import JamVM.Alloc.CompactUnthread

/-! # Compaction preserves the object graph -/

namespace JamVM.Alloc.Compaction

open List Threading
open Tile (stop)

variable {gc : Compaction} {memory : Memory} {reference : ObjectList Nat}
  {tiles : List Tile}

/-! ## Destinations -/

variable {newAddr cell : Nat} {tile : Tile} {queue : ObjectList Nat}

section
variable {limit start : Nat}

variable (gc) in
theorem landing_cons (tiled : Tiles memory limit start (first :: rest)) (high : newAddr ≤ start)
    (grain : objectGrain ∣ start - newAddr) :
    ∃ next, newAddr ≤ next ∧ next ≤ first.stop ∧ objectGrain ∣ first.stop - next ∧
      (gc.live first = true → ∃ dest, newAddr ≤ dest ∧ dest ≤ first.address ∧
        gc.landing (first :: rest) newAddr first.address = dest ∧
        dest + movedSize first dest = next) ∧
      ∀ tile ∈ rest,
        gc.landing (first :: rest) newAddr tile.address = gc.landing rest next tile.address := by
  obtain ⟨rfl, -, valid, later⟩ := tiled
  have sizeGrain := valid.grain
  have positive := valid.positive
  have apart (tile : Tile) (inRest : tile ∈ rest) : tile.address ≠ first.address := by
    have behind := (later.bounds inRest).1
    rw [stop] at behind
    omega
  cases isLive : gc.live first with
  | false =>
    refine ⟨newAddr, le_rfl, ?_, ?_, by simp, fun tile _ => by simp [landing, isLive]⟩
    · rw [stop]
      omega
    · simp only [stop, objectGrain] at grain sizeGrain ⊢
      omega
  | true =>
    obtain ⟨above, below, leftGrain⟩ := destinationOf_bounds gc high grain
    obtain ⟨fits, restGrain, -⟩ := movedSize_fits valid below leftGrain
    exact ⟨_, by omega, fits, restGrain, fun _ => ⟨_, above, below, by simp [landing, isLive], rfl⟩,
      fun tile inRest => by simp [landing, isLive, apart tile inRest]⟩

variable (tiled : Tiles memory limit start tiles) (high : newAddr ≤ start)
  (grain : objectGrain ∣ start - newAddr) (isTile : tile ∈ tiles)
include tiled high grain isTile

theorem landing_bounds (live : gc.live tile = true) :
    newAddr ≤ gc.landing tiles newAddr tile.address ∧
      gc.landing tiles newAddr tile.address ≤ tile.address := by
  induction tiles generalizing start newAddr with
  | nil => simp at isTile
  | cons first rest ih =>
    obtain ⟨next, above, fits, left, here, behind⟩ := landing_cons gc tiled high grain
    rcases mem_cons.mp isTile with rfl | inRest
    · obtain ⟨dest, low, below, lands, -⟩ := here live
      rw [lands]
      exact ⟨low, below⟩
    · rw [behind tile inRest]
      exact (ih tiled.2.2.2 fits left inRest).imp_left above.trans

theorem landing_order (isOther : other ∈ tiles) (live : gc.live tile = true)
    (otherLive : gc.live other = true) (order : tile.address < other.address) :
    gc.landing tiles newAddr tile.address + movedSize tile (gc.landing tiles newAddr tile.address) ≤
      gc.landing tiles newAddr other.address := by
  induction tiles generalizing start newAddr with
  | nil => simp at isTile
  | cons first rest ih =>
    obtain ⟨next, -, fits, left, here, behind⟩ := landing_cons gc tiled high grain
    have low := (tiled.bounds isTile).1
    obtain ⟨rfl, -, -, later⟩ := tiled
    have otherInRest : other ∈ rest := by
      refine (mem_cons.mp isOther).resolve_left ?_
      rintro rfl
      omega
    rw [behind other otherInRest]
    rcases mem_cons.mp isTile with rfl | inRest
    · obtain ⟨dest, -, -, lands, moved⟩ := here live
      rw [lands, moved]
      exact (landing_bounds later fits left otherInRest otherLive).1
    · rw [behind tile inRest]
      exact ih later fits left inRest otherInRest

end

theorem landing_root (isTile : tile ∈ tiles) (live : gc.live tile = true)
    (isRoot : gc.isConservativeRoot (gc.object tile) = true) :
    gc.landing tiles newAddr tile.address = tile.address := by
  induction tiles generalizing newAddr with
  | nil => simp at isTile
  | cons first rest ih =>
    rw [object] at isRoot
    rcases mem_cons.mp isTile with same | inRest
    · simp [landing, ← same, live, destinationOf, isRoot]
    · rw [landing]
      split
      · dsimp only
        split
        · rename_i here
          rw [← here, destinationOf, if_pos isRoot]
        · exact ih inRest
      · exact ih inRest

/-! ## The reference list -/

theorem storeReferenceList_at (inside : index < queue.size) :
    gc.storeReferenceList memory queue (gc.referenceSlot index) = (queue.list index).getD 0 := by
  have word := gc.platform.isWord
  have found : (gc.referenceSlot index - gc.referenceList) / gc.platform.wordSize = index := by
    rw [referenceSlot, Nat.add_sub_cancel_left]
    exact Nat.mul_div_cancel _ (by omega)
  simp only [storeReferenceList, found, inside, true_and, ↓reduceIte]

theorem storeReferenceList_of_ne (outside : ∀ index < queue.size, cell ≠ gc.referenceSlot index) :
    gc.storeReferenceList memory queue cell = memory cell := by
  simp only [storeReferenceList]
  rw [if_neg fun both => outside _ both.1 both.2]

theorem referenceSlot_injective : Function.Injective gc.referenceSlot := by
  intro left right same
  have word := gc.platform.isWord
  simp only [referenceSlot, Nat.add_left_cancel_iff] at same
  exact Nat.eq_of_mul_eq_mul_right (by omega) same

variable (gc) in
def relocatedList (tiles : List Tile) (queue : ObjectList Nat) : ObjectList Nat :=
  { queue with
    list := fun index =>
      if index ∈ queue.iterateIndices then
        (queue.list index).map (gc.relocation tiles)
      else
        queue.list index }

variable (gc) in
def finalWord (memory : Memory) (tiles : List Tile) (queue : ObjectList Nat) : Memory :=
  gc.storeReferenceList (gc.relocatedWord memory tiles (gc.relocation tiles))
    (gc.relocatedList tiles queue)

theorem finalWord_at (inside : index < queue.size) :
    gc.finalWord memory tiles queue (gc.referenceSlot index) =
      if index ∈ queue.iterateIndices then
        ((queue.list index).map (gc.relocation tiles)).getD 0
      else
        (queue.list index).getD 0 := by
  have value : gc.finalWord memory tiles queue (gc.referenceSlot index) =
      ((gc.relocatedList tiles queue).list index).getD 0 := storeReferenceList_at inside
  rw [value]
  simp only [relocatedList]
  split <;> rfl

theorem finalWord_of_ne (outside : ∀ index < queue.size, cell ≠ gc.referenceSlot index) :
    gc.finalWord memory tiles queue cell =
      gc.relocatedWord memory tiles (gc.relocation tiles) cell :=
  storeReferenceList_of_ne outside

theorem IsLive.ne_zero (isLive : gc.IsLive tiles ob) : ob ≠ 0 := by
  obtain ⟨tile, -, -, rfl⟩ := isLive
  have word := gc.platform.isWord
  rw [object, headerSize, Platform.headerSize]
  omega

theorem relocatedWord_ne (differs : gc.relocatedWord memory tiles relocate cell ≠ memory cell) :
    cell ∈ gc.threadedWords memory tiles ∧ memory cell ≠ 0 ∨
      cell ∈ gc.clearedWords memory tiles := by
  rw [relocatedWord] at differs
  split at differs
  · rename_i isThreaded
    exact .inl ⟨isThreaded, fun null => differs (by rw [if_pos null, null])⟩
  · split at differs
    · rename_i isCleared
      exact .inr isCleared
    · exact absurd rfl differs

/-! ## Between the walks -/

section
variable {pending : Nat → List Nat} {settled : Set Nat} {queue : ObjectList Nat}
  (wf : gc.WellFormed memory reference tiles)
  (isQueue : (gc.firstPass memory reference).reference = queue)
include wf isQueue

variable {index : Nat}

theorem WellFormed.list_ne_address (inside : index < queue.size)
    (isTile : tile ∈ tiles) : gc.referenceSlot index ≠ tile.address := by
  have bounds := wf.tiled.bounds isTile
  have positive := (wf.tiled.valid isTile).positive
  rw [stop] at bounds
  rcases (wf.listed index (isQueue ▸ inside)).1 with below | above <;> omega

section
variable (inv : gc.FirstInvariant memory tiles tiles [] pending settled
  (gc.firstPass memory reference))
include inv

theorem FirstInvariant.list_fresh (inside : index < queue.size) :
    Fresh (gc.headers tiles) pending settled (gc.referenceSlot index) := by
  obtain ⟨-, -, notThreaded, notCleared⟩ := wf.listed index (isQueue ▸ inside)
  refine ⟨?_, fun isSettled => ?_, fun header isHeader mem =>
    notThreaded (inv.pending_known header isHeader _ mem)⟩
  · rintro ⟨tile, isTile, -, same⟩
    exact wf.list_ne_address isQueue inside isTile same.symm
  · rcases mem_allSlots.mp (inv.settled_known _ isSettled) with
      isRoot | ⟨tile, isTile, live, inTile⟩
    · exact notThreaded (mem_threadedWords.mpr (.inl isRoot))
    · rcases WellFormed.mem_slotsOf.mp inTile with isCleared | isThreaded
      · exact notCleared (mem_clearedWords.mpr ⟨tile, isTile, live, isCleared⟩)
      · exact notThreaded (mem_threadedWords.mpr (.inr ⟨tile, isTile, live, isThreaded⟩))

theorem FirstInvariant.list_stored : Threaded (gc.storeReferenceList memory queue)
      (gc.finalWord memory tiles queue) (gc.newObject tiles)
      (gc.headers tiles) Set.univ pending settled
      (gc.storeReferenceList (gc.firstPass memory reference).memory queue) := by
  have apart : ∀ cell ∉ {cell | ∃ index < queue.size, cell = gc.referenceSlot index},
      ∀ index < queue.size, cell ≠ gc.referenceSlot index :=
    fun cell outside index inside same => outside ⟨index, inside, same⟩
  apply inv.threaded.refill (fun cell mem => ?_) (fun cell mem => ?_)
    (fun cell outside => ⟨storeReferenceList_of_ne (apart cell outside),
      finalWord_of_ne (apart cell outside), storeReferenceList_of_ne (apart cell outside)⟩)
  · obtain ⟨index, inside, rfl⟩ := mem
    exact inv.list_fresh wf isQueue inside
  · obtain ⟨index, inside, rfl⟩ := mem
    rw [storeReferenceList_at inside, storeReferenceList_at inside]

theorem FirstInvariant.list_ready (iterated : index ∈ queue.iterateIndices) :
    Threaded.Ready (gc.storeReferenceList memory queue)
      (gc.finalWord memory tiles queue) (gc.newObject tiles)
      (fun ob => ob - gc.headerSize) (gc.headers tiles) Set.univ
      (gc.referenceSlot index) := by
  have inside := (isQueue ▸ inv.inRange).lt_size iterated
  refine ⟨Set.mem_univ _, (wf.listed index (isQueue ▸ inside)).2.1, ?_, ?_⟩
  · rw [storeReferenceList_at inside]
    intro notNull
    cases found : queue.list index with
    | none => simp [found] at notNull
    | some ob =>
      obtain ⟨tile, isTile, live, isObject⟩ := inv.queued ob
        (isQueue ▸ mem_map.mpr ⟨index, iterated, found⟩)
      exact ⟨tile, isTile, live, by simp [isObject, object]⟩
  · rw [storeReferenceList_at inside, finalWord_at inside, if_pos iterated]
    intro notNull
    cases found : queue.list index with
    | none => simp [found] at notNull
    | some => rfl

theorem FirstInvariant.secondInvariant :
    ∃ next, gc.SecondInvariant (gc.storeReferenceList memory queue)
      (gc.finalWord memory tiles queue) tiles [] tiles next settled
      { memory :=
          gc.threadReferenceList (gc.firstPass memory reference).memory queue
        ptr := gc.base
        newAddr := gc.base
        newlist := 0
        last := none
        largest := 0
        heapfree := 0 } := by
  have inRange : queue.InRange := isQueue ▸ inv.inRange
  have fresh : ∀ slot ∈ queue.iterateIndices.map gc.referenceSlot,
      Fresh (gc.headers tiles) pending settled slot := by
    intro slot mem
    obtain ⟨index, iterated, rfl⟩ := mem_map.mp mem
    exact inv.list_fresh wf isQueue (inRange.lt_size iterated)
  have ready : ∀ slot ∈ queue.iterateIndices.map gc.referenceSlot,
      Threaded.Ready (gc.storeReferenceList memory queue)
        (gc.finalWord memory tiles queue) (gc.newObject tiles)
        (fun ob => ob - gc.headerSize) (gc.headers tiles) Set.univ slot := by
    intro slot mem
    obtain ⟨index, iterated, rfl⟩ := mem_map.mp mem
    exact inv.list_ready wf isQueue iterated
  obtain ⟨next, threaded, members⟩ := (inv.list_stored wf isQueue).threadAll
    (queue.iterateIndices_nodup.map referenceSlot_injective) fresh ready
  have everywhere : {cell | cell < gc.base ∨ gc.base ≤ cell} = Set.univ :=
    Set.eq_univ_of_forall fun cell => Nat.lt_or_ge cell gc.base
  refine ⟨next, ?_⟩
  exact
    { split := rfl
      tiled := by
        apply wf.tiled.congr
        intro tile isTile
        exact storeReferenceList_of_ne fun index inside same =>
          wf.list_ne_address isQueue inside isTile same.symm
      walk := .start tiles
      threaded := by
        dsimp only
        rw [everywhere]
        exact threaded
      position := by
        rintro header ⟨tile, isTile, live, rfl⟩ slot mem
        rcases (members tile.address slot).mp mem with old | ⟨isListed, -, -⟩
        · exact inv.position tile isTile live slot old
        · obtain ⟨index, iterated, rfl⟩ := mem_map.mp isListed
          have bounds := wf.tiled.bounds isTile
          have positive := (wf.tiled.valid isTile).positive
          rw [stop] at bounds
          rcases (wf.listed index (isQueue ▸ inRange.lt_size iterated)).1 with
            below | above
          · exact .inl below
          · exact .inr (by omega)
      complete := by
        intro cell differs
        by_cases isSlot : ∃ index < queue.size, cell = gc.referenceSlot index
        · obtain ⟨index, inside, rfl⟩ := isSlot
          rw [finalWord_at inside, storeReferenceList_at inside] at differs
          by_cases iterated : index ∈ queue.iterateIndices
          · have notNull : gc.storeReferenceList memory queue (gc.referenceSlot index) ≠ 0 := by
              rw [storeReferenceList_at inside]
              intro null
              cases found : queue.list index with
              | none => simp [found] at differs
              | some ob =>
                have isLive : gc.IsLive tiles ob := inv.queued ob
                  (isQueue ▸ mem_map.mpr ⟨index, iterated, found⟩)
                exact isLive.ne_zero (by simpa [found] using null)
            have mem := mem_map_of_mem (f := gc.referenceSlot) iterated
            exact .inr ⟨_, (ready _ mem).isHeader notNull,
              (members _ _).mpr (.inr ⟨mem, notNull, rfl⟩)⟩
          · simp [iterated] at differs
        · have apart : ∀ index < queue.size, cell ≠ gc.referenceSlot index :=
            fun index inside same => isSlot ⟨index, inside, same⟩
          rw [finalWord_of_ne apart, storeReferenceList_of_ne apart] at differs
          rcases relocatedWord_ne differs with ⟨isThreaded, notNull⟩ | isCleared
          · rcases inv.complete cell isThreaded notNull with
              isSettled | ⟨header, isHeader, mem⟩
            · exact .inl isSettled
            · exact .inr ⟨header, isHeader, (members header cell).mpr (.inl mem)⟩
          · exact .inl (inv.cleared cell isCleared)
      starts := by
        intro tile isTile
        constructor
        · intro isSettled
          exact wf.slot_ne_address (inv.settled_known _ isSettled) isTile rfl
        · intro header isHeader mem
          rcases (members header _).mp mem with old | ⟨isListed, -, -⟩
          · exact wf.slot_ne_address (threadedWords_subset
              (inv.pending_known header isHeader _ old)) isTile rfl
          · obtain ⟨index, iterated, same⟩ := mem_map.mp isListed
            exact wf.list_ne_address isQueue (inRange.lt_size iterated) isTile same
      enough := by
        intro header isHeader
        have subset : next header ⊆ gc.threadedWords memory tiles ++
            (range queue.size).map gc.referenceSlot := by
          intro slot mem
          rcases (members header slot).mp mem with old | ⟨isListed, -, -⟩
          · exact mem_append_left _ (inv.pending_known header isHeader slot old)
          · obtain ⟨index, iterated, rfl⟩ := mem_map.mp isListed
            exact mem_append_right _ (mem_map_of_mem (mem_range.mpr (inRange.lt_size iterated)))
        have bound := (subperm_of_subset (threaded.nodup header isHeader) subset).length_le
        have total := wf.enough
        rw [length_append, length_map, length_range] at bound
        rw [isQueue] at total
        omega
      built := fun _ => ⟨[],
        { tiled := rfl
          moved := by simp
          contents := by simp
          origin := by simp
          chunks := fun _ => rfl
          last := rfl
          heapfree := rfl }⟩
      stuck := fun full => absurd (by simp [Roomy]) full }

end

end

/-! ## The compacted heap -/

variable (gc) in
/-- The result as a heap: its blocks are the moved blocks and the chunks of the
free list. -/
structure CompactedHeap (memory : Memory) (tiles : List Tile) (res : Compacted)
    (blocks : List Tile) : Prop where
  tiled : Tiles res.memory gc.limit gc.base blocks
  moved : ∀ tile ∈ tiles, gc.live tile = true → gc.movedBlock tiles tile ∈ blocks
  contents : ∀ tile ∈ tiles, gc.live tile = true →
    ∀ offset, gc.headerSize ≤ offset → offset < tile.size →
      res.memory ((gc.movedBlock tiles tile).address + offset) =
        gc.finalWord memory tiles res.reference (tile.address + offset)
  origin : ∀ block ∈ blocks, hdrAlloced block.header = true →
    ∃ tile ∈ tiles, gc.live tile = true ∧ block = gc.movedBlock tiles tile
  freelist : gc.FreeChain res.memory res.freelist (gc.freeChunks blocks) 0
  heapfree : res.heapfree = freeSize blocks
  outside : ∀ cell, gc.Outside cell → res.memory cell = gc.finalWord memory tiles res.reference cell

theorem finish_built {pass : SecondPass} (built : gc.Built final tiles tiles blocks pass)
    (high : pass.newAddr ≤ gc.limit) (grain : objectGrain ∣ gc.limit - pass.newAddr) :
    ∃ filled last, gc.Built final tiles tiles filled last ∧ last.newAddr = gc.limit ∧
      (gc.finish pass).memory = (gc.setLastNext last 0).memory ∧
      (gc.finish pass).newlist = (gc.setLastNext last 0).newlist ∧
      (gc.finish pass).heapfree = last.heapfree ∧
      ∀ cell, gc.Outside cell → last.memory cell = pass.memory cell := by
  rw [finish]
  by_cases rest : pass.newAddr ≠ gc.limit
  · have below : pass.newAddr < gc.limit := by omega
    rw [if_pos rest]
    refine ⟨_, _, built.addChunk below grain, rfl, ?_, ?_, setLastNext_heapfree _ 0,
      fun cell outside => built.lastInside.addChunk_outside built.tiled.start_le below outside⟩
    · refine (setLastNext_congr ?_ ?_ ?_ 0).1 <;> rfl
    · refine (setLastNext_congr ?_ ?_ ?_ 0).2 <;> rfl
  · rw [if_neg rest]
    exact ⟨blocks, pass, built, not_not.mp rest, rfl, rfl, setLastNext_heapfree _ 0, fun _ _ => rfl⟩

theorem finish_stuck {pass : SecondPass} (stuck : gc.Stuck pass blocks address)
    (high : pass.newAddr ≤ gc.limit) : ¬ Tiles (gc.finish pass).memory gc.limit gc.base tiles := by
  rw [finish]
  by_cases rest : pass.newAddr ≠ gc.limit
  · have filled := stuck.addChunk (high.lt_of_ne rest)
    have closed := filled.setLastNext 0
    have same : (gc.setLastNext (gc.addChunkToFreelist pass pass.newAddr gc.limit) 0).memory =
        (gc.setLastNext { gc.addChunkToFreelist pass pass.newAddr gc.limit with
          newAddr := gc.limit } 0).memory := by
      refine (setLastNext_congr ?_ ?_ ?_ 0).1 <;> rfl
    rw [if_pos rest, same]
    exact closed.tiled.not_empty filled.below closed.empty
  · rw [if_neg rest]
    have closed := stuck.setLastNext 0
    exact closed.tiled.not_empty (stuck.below.trans_le high) closed.empty

theorem WellFormed.secondPass (wf : gc.WellFormed memory reference tiles) :
    ∃ pending settled, gc.SecondInvariant
      (gc.storeReferenceList memory (gc.firstPass memory reference).reference)
      (gc.finalWord memory tiles (gc.firstPass memory reference).reference) tiles tiles []
      pending settled (gc.secondPass (gc.threadReferenceList (gc.firstPass memory reference).memory
        (gc.firstPass memory reference).reference)) := by
  obtain ⟨pending, initially⟩ := wf.firstInvariant
  obtain ⟨firstPending, settled, first⟩ := initially.firstPass wf
  obtain ⟨nextPending, between⟩ := first.secondInvariant wf rfl
  exact between.secondPass

theorem roomy_of_tiles (wf : gc.WellFormed memory reference tiles)
    (tiled : Tiles (gc.doCompact memory reference).memory gc.limit gc.base blocks) :
    gc.Roomy tiles tiles := by
  by_contra full
  obtain ⟨pending, settled, last⟩ := wf.secondPass
  obtain ⟨_, address, stuck⟩ := last.stuck full
  have atEnd := last.walk.high.trans_eq last.tiled
  exact finish_stuck stuck atEnd tiled

theorem doCompact_heap (wf : gc.WellFormed memory reference tiles)
    (rooms : gc.Roomy tiles tiles) :
    ∃ blocks, gc.CompactedHeap memory tiles (gc.doCompact memory reference)
      blocks := by
  obtain ⟨lastPending, resolved, last⟩ := wf.secondPass
  obtain ⟨blocks, built⟩ := last.built rooms
  have atEnd : (gc.secondPass (gc.threadReferenceList (gc.firstPass memory reference).memory
      (gc.firstPass memory reference).reference)).ptr = gc.limit := last.tiled
  obtain ⟨filled, closed, isBuilt, isWhole, sameMemory, sameList, sameFree, sameOutside⟩ :=
    finish_built built (atEnd ▸ last.walk.high) (atEnd ▸ last.walk.grain)
  obtain ⟨tiled, contents⟩ := isBuilt.setLastNext_kept 0
  have noHeader : ∀ header, header ∉ gc.headers [] := by
    rintro header ⟨tile, isTile, -⟩
    simp at isTile
  refine ⟨filled, ?_⟩
  rw [doCompact]
  exact
    { tiled := by
        dsimp only
        rw [sameMemory, ← isWhole]
        exact tiled
      moved := fun tile isTile live => (isBuilt.moved tile isTile live).1
      contents := by
        dsimp only
        rw [sameMemory]
        exact contents
      origin := isBuilt.origin
      freelist := by
        dsimp only
        rw [sameMemory, sameList]
        exact isBuilt.chunks 0
      heapfree := sameFree.trans isBuilt.heapfree
      outside := by
        intro cell outside
        have inside : cell ∈ {cell | cell < gc.base ∨ (gc.secondPass (gc.threadReferenceList
              (gc.firstPass memory reference).memory
              (gc.firstPass memory reference).reference)).ptr ≤ cell} := by
          rw [atEnd]
          exact outside
        dsimp only
        rw [sameMemory, isBuilt.lastInside.setLastNext_outside 0 (by rw [isWhole]; exact outside),
          sameOutside cell outside]
        by_cases isSettled : cell ∈ resolved
        · exact last.threaded.value cell isSettled inside
        · rw [last.threaded.untouched cell inside (noHeader cell) isSettled
            fun header isHeader => absurd isHeader (noHeader header)]
          by_contra differs
          rcases last.complete cell (Ne.symm differs) with settles | ⟨header, isHeader, -⟩
          · exact isSettled settles
          · exact noHeader header isHeader }

/-! ## The object graph -/

theorem relocation_object (tile : Tile) : gc.relocation tiles (gc.object tile) =
    gc.landing tiles gc.base tile.address + gc.headerSize := by
  rw [relocation, object, Nat.add_sub_cancel]

theorem relocation_block (tile : Tile) : gc.relocation tiles (gc.object tile) - gc.headerSize =
      gc.landing tiles gc.base tile.address := by
  rw [relocation_object, Nat.add_sub_cancel]

namespace CompactedHeap

variable {res : Compacted} {blocks : List Tile} {tile : Tile}

theorem moved_size (heap : gc.CompactedHeap memory tiles res blocks)
    (isTile : tile ∈ tiles) (live : gc.live tile = true) (room : gc.Room tiles tile) :
    hdrSize (res.memory (gc.relocation tiles (gc.object tile) - gc.headerSize)) =
        movedSize tile (gc.landing tiles gc.base tile.address) := by
  have header := heap.tiled.header (heap.moved tile isTile live)
  rw [relocation_block]
  exact (congrArg hdrSize header).trans (movedHeader_size live room)

end CompactedHeap

theorem IsLive.order (order : gc.object tile < gc.object other) : tile.address < other.address := by
  rw [object, object] at order
  omega

theorem preserved_of_roomy (wf : gc.WellFormed memory reference tiles)
    (rooms : gc.Roomy tiles tiles) :
    gc.Preserved memory tiles (gc.doCompact memory reference) (gc.relocation tiles) := by
  obtain ⟨blocks, heap⟩ := doCompact_heap wf rooms
  have tiled := wf.tiled
  have sameList : (gc.doCompact memory reference).reference =
      (gc.firstPass memory reference).reference := rfl
  have inRange : (gc.doCompact memory reference).reference.InRange := by
    obtain ⟨pending, initially⟩ := wf.firstInvariant
    obtain ⟨_, _, first⟩ := initially.firstPass wf
    exact first.inRange
  generalize gc.doCompact memory reference = res at *
  have bounds : ∀ tile ∈ tiles, gc.live tile = true →
      gc.base ≤ gc.landing tiles gc.base tile.address ∧
        gc.landing tiles gc.base tile.address ≤ tile.address :=
    fun tile isTile live => landing_bounds tiled le_rfl (by simp) isTile live
  have order : ∀ tile ∈ tiles, ∀ other ∈ tiles, gc.live tile = true →
      gc.live other = true → gc.object tile < gc.object other →
        gc.landing tiles gc.base tile.address +
          movedSize tile (gc.landing tiles gc.base tile.address) ≤
            gc.landing tiles gc.base other.address :=
    fun tile isTile other isOther live otherLive pre =>
      landing_order tiled le_rfl (by simp) isTile isOther live otherLive (IsLive.order pre)
  have unlisted : ∀ cell, gc.base ≤ cell → cell < gc.limit →
      ∀ index < res.reference.size, cell ≠ gc.referenceSlot index := by
    intro cell low high index inside same
    rw [sameList] at inside
    rcases (wf.listed index inside).1 with below | above <;> omega
  exact
    { increasing := by
        rintro _ _ ⟨tile, isTile, live, rfl⟩ ⟨other, isOther, otherLive, rfl⟩ pre
        have apart := order tile isTile other isOther live otherLive pre
        have positive := (tiled.valid isTile).positive
        have atLeast := le_movedSize tile (gc.landing tiles gc.base tile.address)
        rw [relocation_object, relocation_object]
        omega
      down := by
        rintro _ ⟨tile, isTile, live, rfl⟩
        have below := (bounds tile isTile live).2
        rw [relocation_object, object]
        omega
      fixed := by
        rintro _ isRoot ⟨tile, isTile, live, rfl⟩
        have found : gc.isConservativeRoot (gc.object tile) = true :=
          any_eq_true.mpr ⟨_, isRoot, by simp⟩
        rw [relocation_object, landing_root isTile live found, object]
      inHeap := by
        rintro _ ⟨tile, isTile, live, rfl⟩
        have inside := heap.tiled.bounds (heap.moved tile isTile live)
        rw [stop, movedBlock_size live (rooms tile isTile live), movedBlock] at inside
        rw [heap.moved_size isTile live (rooms tile isTile live), relocation_block,
          relocation_object]
        exact ⟨Nat.add_le_add_right inside.1 _, inside.2⟩
      disjoint := by
        rintro _ _ ⟨tile, isTile, live, rfl⟩ ⟨other, isOther, otherLive, rfl⟩ pre
        rw [heap.moved_size isTile live (rooms tile isTile live), relocation_block,
          relocation_block]
        exact order tile isTile other isOther live otherLive pre
      contents := by
        intro tile isTile live offset low high
        have inside := tiled.bounds isTile
        rw [stop] at inside
        rw [relocation_block]
        refine (heap.contents tile isTile live offset low high).trans ?_
        exact finalWord_of_ne (unlisted _ (by omega) (by omega))
      roots := by
        intro slot isRoot
        have isThreaded : slot ∈ gc.threadedWords memory tiles :=
          mem_threadedWords.mpr (.inl isRoot)
        have apart : ∀ index < res.reference.size, slot ≠ gc.referenceSlot index := by
          intro index inside same
          rw [sameList] at inside
          exact (wf.listed index inside).2.2.1 (same ▸ isThreaded)
        rw [heap.outside slot (wf.roots slot isRoot), finalWord_of_ne apart,
          relocatedWord, if_pos isThreaded]
      outside := by
        intro cell outside apart
        rw [heap.outside cell outside, finalWord_of_ne apart]
      listed := by
        intro index iterated
        have inside := inRange.lt_size iterated
        have outside := (wf.listed index (sameList ▸ inside)).1
        rw [heap.outside _ outside, finalWord_at inside, if_pos iterated]
      unthreaded := by
        refine ⟨blocks, heap.tiled, fun block isBlock => (heap.tiled.valid isBlock).unthreaded, ?_⟩
        rintro _ ⟨tile, isTile, live, rfl⟩
        exact ⟨_, heap.moved tile isTile live, (relocation_object tile).symm⟩
      growth := by
        intro tile isTile live
        have moves : gc.relocation tiles (gc.object tile) ≠ gc.object tile ↔
            gc.landing tiles gc.base tile.address ≠ tile.address := by
          rw [relocation_object, object]
          omega
        rw [heap.moved_size isTile live (rooms tile isTile live), movedSize]
        simp only [moves, and_comm] }

/-- A compaction preserves the object graph exactly if every marked block that moves and
whose hashcode has been taken can grow. -/
theorem doCompact_preserves_graph (wf : gc.WellFormed memory reference tiles) :
    (∃ relocate, gc.Preserved memory tiles (gc.doCompact memory reference) relocate) ↔
      gc.Roomy tiles tiles := by
  constructor
  · rintro ⟨relocate, preserved⟩
    obtain ⟨blocks, tiled, -⟩ := preserved.unthreaded
    exact roomy_of_tiles wf tiled
  · intro rooms
    exact ⟨_, preserved_of_roomy wf rooms⟩

/-! ## A heap with one array

The class `java.lang.Class`, the class `[B`, a gap of one grain, and a byte array
whose hashcode has been taken. -/

def arrayTile (size : Nat) : Tile where
  address := 136
  header := size + 1 + 2 ^ 30

def arrayTiles (size : Nat) : List Tile :=
  [{ address := 64, header := 33 }, { address := 96, header := 33 },
    { address := 128, header := 8 }, arrayTile size]

def arrayMemory (size : Nat) : Memory
  | 16 => 144
  | 64 => 33
  | 80 => 72
  | 96 => 33
  | 112 => 72
  | 128 => 8
  | 136 => size + 1 + 2 ^ 30
  | 152 => 104
  | _ => 0

def arrayCompaction (size : Nat) : Compaction where
  platform := { wordSize := 8, isWord := .inr rfl }
  base := 64
  limit := 136 + size
  referentOffset := 16
  queueOffset := 24
  marks _ := hardMark
  conservativeRoots := []
  classBlock ob :=
    if ob = 72 then
      { name := "java/lang/Class".toList, flags := { classClass := true } }
    else
      { name := "[B".toList }
  loaderTable _ := []
  rootSlots := [16]
  referenceList := 0
  links := 4

theorem arrayHeap_wellFormed (isSize : size = 40 ∨ size = 2 ^ 30 - 8) :
    (arrayCompaction size).WellFormed (arrayMemory size) .empty (arrayTiles size) := by
  rcases isSize with rfl | rfl <;> refine
      { inRange := ⟨le_rfl, le_rfl⟩, queued := fun _ mem => absurd mem not_mem_nil
        tiled := ?_, fits := ?_, roots := ?_, inside := ?_, distinct := ?_, aligned := ?_
        references := ?_, listed := ?_, enough := ?_ } <;> decide +kernel

theorem doCompact_preserves_graph_array :
    (arrayCompaction 40).Roomy (arrayTiles 40) (arrayTiles 40) ∧
      ∃ relocate, (arrayCompaction 40).Preserved (arrayMemory 40) (arrayTiles 40)
        ((arrayCompaction 40).doCompact (arrayMemory 40) .empty) relocate :=
  have rooms : (arrayCompaction 40).Roomy (arrayTiles 40) (arrayTiles 40) := by
    intro tile mem _
    simp only [arrayTiles, mem_cons, not_mem_nil, or_false] at mem
    rcases mem with rfl | rfl | rfl | rfl <;> exact fun _ _ => by decide +kernel
  ⟨rooms, (doCompact_preserves_graph (arrayHeap_wellFormed (.inl rfl))).mpr rooms⟩

/-- An array of the largest size a header can hold is moved by one grain. Adding the
grain carries into `HASHCODE_TAKEN_BIT` and leaves the size zero. -/
theorem doCompact_overflows_size :
    (arrayCompaction (2 ^ 30 - 8)).WellFormed (arrayMemory (2 ^ 30 - 8)) .empty
        (arrayTiles (2 ^ 30 - 8)) ∧
      ¬∃ relocate, (arrayCompaction (2 ^ 30 - 8)).Preserved (arrayMemory (2 ^ 30 - 8))
        (arrayTiles (2 ^ 30 - 8))
        ((arrayCompaction (2 ^ 30 - 8)).doCompact (arrayMemory (2 ^ 30 - 8)) .empty) relocate := by
  refine ⟨arrayHeap_wellFormed (.inr rfl), ?_⟩
  rintro ⟨relocate, preserved⟩
  have target : ((arrayCompaction (2 ^ 30 - 8)).doCompact (arrayMemory (2 ^ 30 - 8))
      .empty).memory 16 = 136 := by decide +kernel
  have size : hdrSize (((arrayCompaction (2 ^ 30 - 8)).doCompact (arrayMemory (2 ^ 30 - 8))
      .empty).memory 128) = 0 := by decide +kernel
  have root := preserved.roots 16 (by decide)
  have moved : relocate 144 = 136 := root.symm.trans target
  have growth := preserved.growth (arrayTile (2 ^ 30 - 8)) (by decide) (by decide +kernel)
  have isObject : (arrayCompaction (2 ^ 30 - 8)).object (arrayTile (2 ^ 30 - 8)) = 144 := rfl
  have isHeader : (arrayCompaction (2 ^ 30 - 8)).headerSize = 8 := rfl
  rw [isObject, isHeader, moved, size] at growth
  revert growth
  decide +kernel

end JamVM.Alloc.Compaction
