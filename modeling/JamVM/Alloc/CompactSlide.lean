import JamVM.Alloc.CompactThread

/-! # The second walk of a compaction

The second walk restores the remaining slots and builds the compacted heap from
below: moved blocks, and chunks for the gaps below conservative roots. What it
writes is always below the block it has come to.
-/

namespace JamVM.Alloc.Compaction

open Function List

open Threading

variable {gc : Compaction}

/-! ## Moved blocks -/

theorem grownHeader_size (room : hdrSize hdr + objectGrain < 2 ^ 30) :
    hdrSize (gc.grownHeader hdr) = hdrSize hdr + objectGrain := by
  rcases gc.platform.isWord with word | word <;>
    simp only [grownHeader, hdrSize, objectGrain, word] at room ⊢ <;> omega

theorem grownHeader_alloced (hdr : Nat) : hdrAlloced (gc.grownHeader hdr) = hdrAlloced hdr := by
  have parity : gc.grownHeader hdr % 2 = hdr % 2 := by
    rcases gc.platform.isWord with word | word <;>
      simp only [grownHeader, objectGrain, word] <;> omega
  rw [hdrAlloced, hdrAlloced, parity]

variable (gc) in
/-- A block that moves and whose hashcode has been taken can grow by a grain. -/
def Room (tiles : List Tile) (tile : Tile) : Prop :=
  gc.landing tiles gc.base tile.address ≠ tile.address → hdrHashcodeTaken tile.header = true →
    tile.size + objectGrain < 2 ^ 30

variable (gc) in
def Roomy (tiles pre : List Tile) : Prop :=
  ∀ tile ∈ pre, gc.live tile = true → gc.Room tiles tile

variable (gc) in
def movedBlock (tiles : List Tile) (tile : Tile) : Tile where
  address := gc.landing tiles gc.base tile.address
  header := gc.movedHeader tile (gc.landing tiles gc.base tile.address)

variable {tile : Tile} {start blockAddr newAddr : Nat} {pass other : SecondPass} {memory : Memory}

theorem movedHeader_alloced (live : gc.live tile = true) :
    hdrAlloced (gc.movedHeader tile start) = true := by
  have alloced := (live_iff.mp live).1
  rw [movedHeader]
  split
  · rw [grownHeader_alloced, alloced]
  · exact alloced

theorem movedHeader_size (live : gc.live tile = true) (room : gc.Room tiles tile) :
    hdrSize (gc.movedHeader tile (gc.landing tiles gc.base tile.address)) =
      movedSize tile (gc.landing tiles gc.base tile.address) := by
  rw [movedHeader, movedSize]
  split
  · rename_i grows
    have fits := room grows.1 grows.2
    rw [← live_size live] at fits ⊢
    exact grownHeader_size fits
  · exact live_size live

theorem movedHeader_empty (live : gc.live tile = true) (full : ¬ gc.Room tiles tile) :
    blockSize (gc.movedHeader tile (gc.landing tiles gc.base tile.address)) = 0 := by
  simp only [Room, Classical.not_imp, not_lt] at full
  obtain ⟨moves, taken, large⟩ := full
  rw [blockSize, if_pos (movedHeader_alloced live), movedHeader, if_pos ⟨moves, taken⟩]
  rw [← live_size live] at large
  rcases gc.platform.isWord with word | word <;>
    simp only [grownHeader, hdrSize, objectGrain, word] at large ⊢ <;> omega

theorem roomy_append (tiles pre : List Tile) (tile : Tile) : gc.Roomy tiles (pre ++ [tile]) ↔
    gc.Roomy tiles pre ∧ (gc.live tile = true → gc.Room tiles tile) := by
  simp [Roomy, or_imp, forall_and]

theorem movedBlock_size (live : gc.live tile = true)
    (room : gc.Room tiles tile) : (gc.movedBlock tiles tile).size =
      movedSize tile (gc.landing tiles gc.base tile.address) := by
  rw [Tile.size, blockSize, movedBlock, if_pos (movedHeader_alloced live),
    movedHeader_size live room]

theorem movedSize_grain (valid : tile.Valid) : objectGrain ∣ movedSize tile start := by
  have grain := valid.grain
  simp only [movedSize, objectGrain] at grain ⊢
  split <;> omega

theorem le_movedSize (tile : Tile) (start : Nat) : tile.size ≤ movedSize tile start := by
  rw [movedSize]
  split <;> omega

/-! ## Free chunks -/

variable (gc) in
def onFreelist (block : Tile) : Bool :=
  !hdrAlloced block.header && gc.platform.minObjectSize ≤ block.size

variable (gc) in
def freeChunks (blocks : List Tile) : List Nat := (blocks.filter gc.onFreelist).map Tile.address

def freeSize (blocks : List Tile) : Nat :=
  ((blocks.filter fun block => !hdrAlloced block.header).map Tile.size).sum

variable (gc) in
abbrev FreeChain (memory : Memory) : Nat → List Nat → Nat → Prop :=
  Chain id (fun chunk => chunk + gc.platform.wordSize) memory

variable (gc) in
/-- The compacted part of the heap: `blocks` from the base to `newAddr`, made of the
live blocks of `before` and of chunks, whose list is still open at its end. -/
structure Built (final : Memory) (tiles pre blocks : List Tile) (pass : SecondPass) : Prop where
  tiled : Tiles pass.memory pass.newAddr gc.base blocks
  moved : ∀ tile ∈ pre, gc.live tile = true → gc.movedBlock tiles tile ∈ blocks ∧
      tile.size ≤ (gc.movedBlock tiles tile).size
  contents : ∀ tile ∈ pre, gc.live tile = true →
    ∀ offset, gc.headerSize ≤ offset → offset < tile.size →
      pass.memory ((gc.movedBlock tiles tile).address + offset) = final (tile.address + offset)
  origin : ∀ block ∈ blocks, hdrAlloced block.header = true →
    ∃ tile ∈ pre, gc.live tile = true ∧ block = gc.movedBlock tiles tile
  chunks : ∀ next, gc.FreeChain (gc.setLastNext pass next).memory
    (gc.setLastNext pass next).newlist (gc.freeChunks blocks) next
  last : pass.last = (gc.freeChunks blocks).getLast?
  heapfree : pass.heapfree = freeSize blocks

theorem setLastNext_heapfree (pass : SecondPass) (next : Nat) :
    (gc.setLastNext pass next).heapfree = pass.heapfree := by
  rw [setLastNext]
  split <;> rfl

section
variable (isMemory : other.memory = pass.memory) (newlist : other.newlist = pass.newlist)
  (last : other.last = pass.last)
include isMemory newlist last

theorem setLastNext_congr (next : Nat) :
    (gc.setLastNext other next).memory = (gc.setLastNext pass next).memory ∧
      (gc.setLastNext other next).newlist = (gc.setLastNext pass next).newlist := by
  cases isLast : pass.last with
  | none | some => simp [setLastNext, last, isLast, isMemory, newlist]

theorem chunks_of_same (listed : ∀ next, gc.FreeChain (gc.setLastNext pass next).memory
      (gc.setLastNext pass next).newlist chunks next) (next : Nat) :
    gc.FreeChain (gc.setLastNext other next).memory
      (gc.setLastNext other next).newlist chunks next := by
  rw [(setLastNext_congr isMemory newlist last next).1,
    (setLastNext_congr isMemory newlist last next).2]
  exact listed next

end

/-! ## The last chunk -/

variable (gc) in
def LastInside (pass : SecondPass) : Prop :=
  ∀ chunk, pass.last = some chunk →
    gc.base ≤ chunk ∧ chunk + gc.platform.wordSize < pass.newAddr

namespace LastInside

variable {cell : Nat} (inside : gc.LastInside pass)
include inside

theorem setLastNext_outside (next : Nat) (outside : cell < gc.base ∨ pass.newAddr ≤ cell) :
    (gc.setLastNext pass next).memory cell = pass.memory cell := by
  cases isLast : pass.last with
  | none => simp only [setLastNext, isLast]
  | some chunk =>
    obtain ⟨low, high⟩ := inside chunk isLast
    simp only [setLastNext, isLast]
    apply update_of_ne
    omega

theorem addChunk_outside (low : gc.base ≤ pass.newAddr) (below : pass.newAddr < stop)
    (outside : cell < gc.base ∨ stop ≤ cell) :
    (gc.addChunkToFreelist pass pass.newAddr stop).memory cell = pass.memory cell := by
  have headed : gc.LastInside
      { pass with memory := update pass.memory pass.newAddr (stop - pass.newAddr) } := inside
  have notHeader : cell ≠ pass.newAddr := by omega
  rw [addChunkToFreelist]
  dsimp only
  split
  · exact (headed.setLastNext_outside pass.newAddr (outside.imp id fun above =>
      (below.trans_le above).le)).trans (update_of_ne notHeader _ _)
  · exact update_of_ne notHeader _ _

end LastInside

variable (gc) in
theorem skip_cases (high : pass.newAddr ≤ pass.ptr) :
    (gc.skipToConservativeRoot pass = pass ∧
      gc.destinationOf pass.ptr pass.newAddr = pass.newAddr) ∨
    (pass.newAddr < pass.ptr ∧ gc.skipToConservativeRoot pass =
        { gc.addChunkToFreelist pass pass.newAddr pass.ptr with newAddr := pass.ptr } ∧
      gc.destinationOf pass.ptr pass.newAddr = pass.ptr) := by
  rw [skipToConservativeRoot, destinationOf]
  by_cases isRoot : gc.isConservativeRoot (pass.ptr + gc.headerSize) = true
  · by_cases gap : pass.newAddr ≠ pass.ptr
    · exact .inr ⟨by omega, if_pos ⟨isRoot, gap⟩, if_pos isRoot⟩
    · exact .inl ⟨if_neg fun both => gap both.2, (if_pos isRoot).trans (not_not.mp gap).symm⟩
  · exact .inl ⟨if_neg fun both => isRoot both.1, if_neg isRoot⟩

theorem LastInside.skip (inside : gc.LastInside pass) (low : gc.base ≤ pass.newAddr)
    (high : pass.newAddr ≤ pass.ptr) : (gc.skipToConservativeRoot pass).ptr = pass.ptr ∧
      (gc.skipToConservativeRoot pass).newAddr = gc.destinationOf pass.ptr pass.newAddr ∧
      ∀ cell, cell < gc.base ∨ pass.ptr ≤ cell →
        (gc.skipToConservativeRoot pass).memory cell = pass.memory cell := by
  have samePtr : (gc.addChunkToFreelist pass pass.newAddr pass.ptr).ptr = pass.ptr := by
    rw [addChunkToFreelist]
    dsimp only
    split
    · rw [setLastNext]
      split <;> rfl
    · rfl
  rcases skip_cases gc high with ⟨same, target⟩ | ⟨below, same, target⟩ <;> rw [same, target]
  · exact ⟨rfl, rfl, fun _ _ => rfl⟩
  · exact ⟨samePtr, rfl, fun cell outside => inside.addChunk_outside low below outside⟩

theorem mem_freeChunks (mem : chunk ∈ gc.freeChunks blocks) :
    ∃ block ∈ blocks, block.address = chunk ∧ hdrAlloced block.header = false ∧
      gc.platform.minObjectSize ≤ block.size := by
  obtain ⟨block, isBlock, rfl⟩ := List.mem_map.mp mem
  have facts := List.mem_filter.mp isBlock
  simp only [onFreelist, Bool.and_eq_true, Bool.not_eq_eq_eq_not, Bool.not_true,
    decide_eq_true_eq] at facts
  exact ⟨block, facts.1, rfl, facts.2⟩

namespace Built

variable {final : Memory} {tiles pre blocks : List Tile} {tile : Tile} {pass : SecondPass}

theorem chunk_inside (built : gc.Built final tiles pre blocks pass)
    (mem : chunk ∈ gc.freeChunks blocks) :
    ∃ block ∈ blocks, block.address = chunk ∧ hdrAlloced block.header = false ∧
      gc.base ≤ chunk ∧ chunk < chunk + gc.platform.wordSize ∧
      chunk + gc.platform.wordSize < block.stop ∧ block.stop ≤ pass.newAddr := by
  obtain ⟨block, isBlock, rfl, free, large⟩ := mem_freeChunks mem
  have next := gc.platform.headerSize_lt_minObjectSize
  have word := gc.platform.isWord
  have bounds := built.tiled.bounds isBlock
  rw [Platform.headerSize] at next
  refine ⟨block, isBlock, rfl, free, bounds.1, by omega, ?_, bounds.2⟩
  rw [Tile.stop]
  omega

theorem congr (built : gc.Built final tiles pre blocks pass) (changed : Memory)
    (same : ∀ cell, gc.base ≤ cell → cell < pass.newAddr → changed cell = pass.memory cell) :
    gc.Built final tiles pre blocks { pass with memory := changed } where
  tiled := by
    apply built.tiled.congr
    intro block isBlock
    have bounds := built.tiled.bounds isBlock
    have positive := (built.tiled.valid isBlock).positive
    rw [Tile.stop] at bounds
    exact same block.address bounds.1 (by omega)
  __ := built
  contents := by
    intro tile mem live offset low high
    obtain ⟨isBlock, fits⟩ := built.moved tile mem live
    have bounds := built.tiled.bounds isBlock
    rw [Tile.stop] at bounds
    exact (same _ (by omega) (by omega)).trans (built.contents tile mem live offset low high)
  chunks := by
    intro next
    have chain := built.chunks next
    have atNext : ∀ chunk ∈ gc.freeChunks blocks, changed (chunk + gc.platform.wordSize) =
          pass.memory (chunk + gc.platform.wordSize) := by
      intro chunk mem
      obtain ⟨block, -, -, -, low, post, high, limit⟩ := built.chunk_inside mem
      exact same _ (by omega) (by omega)
    cases isLast : pass.last with
    | none =>
      simp only [setLastNext, isLast] at chain ⊢
      exact chain.congr atNext
    | some last =>
      simp only [setLastNext, isLast] at chain ⊢
      apply chain.congr
      intro chunk mem
      by_cases here : chunk + gc.platform.wordSize = last + gc.platform.wordSize
      · rw [here, update_self, update_self]
      · rw [update_of_ne here, update_of_ne here, atNext chunk mem]

variable {cell : Nat}

section
variable (built : gc.Built final tiles pre blocks pass)
include built

theorem setLastNext_same (next : Nat) (isBlock : block ∈ blocks) (low : block.address ≤ cell)
    (high : cell < block.stop) (kept : cell = block.address ∨ hdrAlloced block.header = true) :
    (gc.setLastNext pass next).memory cell = pass.memory cell := by
  cases isLast : pass.last with
  | none => simp only [setLastNext, isLast]
  | some =>
    obtain ⟨chunk, isChunk, atLast, free, -, post, inside, -⟩ :=
      built.chunk_inside (List.mem_of_getLast? (built.last ▸ isLast))
    simp only [setLastNext, isLast]
    apply update_of_ne
    rcases built.tiled.apart isBlock isChunk with rfl | behind | earlier
    · rcases kept with atStart | alloced
      · omega
      · rw [free] at alloced
        exact absurd alloced (by decide)
    · omega
    · omega

theorem lastInside : gc.LastInside pass := by
  intro chunk isLast
  obtain ⟨block, -, -, -, low, -, inside, limit⟩ :=
    built.chunk_inside (List.mem_of_getLast? (built.last ▸ isLast))
  exact ⟨low, by omega⟩

theorem setLastNext_kept (next : Nat) :
    Tiles (gc.setLastNext pass next).memory pass.newAddr gc.base blocks ∧
      ∀ tile ∈ pre, gc.live tile = true →
        ∀ offset, gc.headerSize ≤ offset → offset < tile.size → (gc.setLastNext pass next).memory
            ((gc.movedBlock tiles tile).address + offset) = final (tile.address + offset) := by
  constructor
  · apply built.tiled.congr
    intro block isBlock
    have positive := (built.tiled.valid isBlock).positive
    exact built.setLastNext_same next isBlock le_rfl (by rw [Tile.stop]; omega) (.inl rfl)
  · intro tile mem live offset low high
    obtain ⟨isBlock, fits⟩ := built.moved tile mem live
    rw [built.setLastNext_same next isBlock (Nat.le_add_right _ _) (by rw [Tile.stop]; omega)
      (.inr (movedHeader_alloced live))]
    exact built.contents tile mem live offset low high

theorem addChunk (below : pass.newAddr < stop) (grain : objectGrain ∣ stop - pass.newAddr) :
    gc.Built final tiles pre (blocks ++ [Tile.free pass.newAddr stop])
      { gc.addChunkToFreelist pass pass.newAddr stop with newAddr := stop } := by
  have free := Tile.free_alloced grain
  have size := Tile.free_size grain
  have headed := built.congr (update pass.memory pass.newAddr (stop - pass.newAddr))
    (fun cell _ high => update_of_ne (by omega) _ _)
  have last : Tiles (update pass.memory pass.newAddr (stop - pass.newAddr)) stop
      pass.newAddr [Tile.free pass.newAddr stop] :=
    ⟨rfl, by simp [Tile.free], Tile.free_valid grain below, Tile.free_stop grain below.le⟩
  have moved : ∀ tile ∈ pre, gc.live tile = true →
      gc.movedBlock tiles tile ∈ blocks ++ [Tile.free pass.newAddr stop] ∧
        tile.size ≤ (gc.movedBlock tiles tile).size := fun tile mem live =>
    ⟨mem_append_left _ (built.moved tile mem live).1, (built.moved tile mem live).2⟩
  have origin : ∀ block ∈ blocks ++ [Tile.free pass.newAddr stop],
      hdrAlloced block.header = true → ∃ tile ∈ pre, gc.live tile = true ∧
        block = gc.movedBlock tiles tile := by
    intro block mem alloced
    rcases mem_append.mp mem with old | isNew
    · exact built.origin block old alloced
    · rw [mem_singleton.mp isNew, free] at alloced
      exact absurd alloced (by decide)
  have heapfree : pass.heapfree + (stop - pass.newAddr) =
      freeSize (blocks ++ [Tile.free pass.newAddr stop]) := by
    rw [built.heapfree]
    simp [freeSize, free, size]
  by_cases large : gc.platform.minObjectSize ≤ stop - pass.newAddr
  · have listed : gc.freeChunks (blocks ++ [Tile.free pass.newAddr stop]) =
        gc.freeChunks blocks ++ [pass.newAddr] := by
      simp [freeChunks, onFreelist, free, size, large]
      rfl
    rw [addChunkToFreelist, if_pos large]
    obtain ⟨tiled, contents⟩ := headed.setLastNext_kept pass.newAddr
    exact
      { tiled := by
          apply tiled.append
          apply last.congr
          intro block isBlock
          rw [mem_singleton.mp isBlock]
          exact headed.lastInside.setLastNext_outside pass.newAddr (.inr le_rfl)
        moved := moved
        contents := contents
        origin := origin
        chunks := by
          intro next
          rw [listed]
          refine ((headed.chunks pass.newAddr).update_of_not_mem next ?_).append
            ⟨rfl, update_self ..⟩
          intro chunk mem
          obtain ⟨block, -, -, -, -, post, inside, limit⟩ := built.chunk_inside mem
          omega
        last := by simp [listed]
        heapfree := by
          rw [← heapfree]
          dsimp only
          rw [setLastNext_heapfree] }
  · have unlisted : gc.freeChunks (blocks ++ [Tile.free pass.newAddr stop]) =
        gc.freeChunks blocks := by
      simp [freeChunks, onFreelist, free, size, large]
    rw [addChunkToFreelist, if_neg large]
    exact
      { tiled := headed.tiled.append last
        moved := moved
        contents := headed.contents
        origin := origin
        chunks := by
          rw [unlisted]
          refine chunks_of_same ?_ ?_ ?_ headed.chunks <;> rfl
        last := unlisted ▸ built.last
        heapfree := heapfree }

theorem skip (high : pass.newAddr ≤ pass.ptr) (grain : objectGrain ∣ pass.ptr - pass.newAddr) :
    ∃ filled, gc.Built final tiles pre filled (gc.skipToConservativeRoot pass) := by
  rcases skip_cases gc high with ⟨same, -⟩ | ⟨below, same, -⟩ <;> rw [same]
  · exact ⟨blocks, built⟩
  · exact ⟨_, built.addChunk below grain⟩

end

end Built

/-! ## A block without a size -/

variable (gc) in
/-- A block below `newAddr` has outgrown the size field, and its size reads as zero. -/
structure Stuck (pass : SecondPass) (blocks : List Tile) (address : Nat) : Prop where
  tiled : Tiles pass.memory address gc.base blocks
  empty : blockSize (pass.memory address) = 0
  below : address < pass.newAddr
  inside : gc.LastInside pass
  last : ∀ chunk, pass.last = some chunk → address < chunk ∨
    ∃ block ∈ blocks, block.address < chunk + gc.platform.wordSize ∧
      chunk + gc.platform.wordSize < block.stop

namespace Stuck

variable {pass post : SecondPass} {blocks : List Tile} {address : Nat}
  (stuck : gc.Stuck pass blocks address)
include stuck

theorem congr (newAddr : pass.newAddr ≤ post.newAddr) (last : post.last = pass.last)
    (same : ∀ cell, gc.base ≤ cell → cell < pass.newAddr → post.memory cell = pass.memory cell) :
    gc.Stuck post blocks address where
  tiled := by
    apply stuck.tiled.congr
    intro block isBlock
    have bounds := stuck.tiled.bounds isBlock
    have positive := (stuck.tiled.valid isBlock).positive
    have below := stuck.below
    rw [Tile.stop] at bounds
    exact same block.address bounds.1 (by omega)
  empty := by
    rw [same address stuck.tiled.start_le stuck.below]
    exact stuck.empty
  below := stuck.below.trans_le newAddr
  inside := fun chunk isLast =>
    (stuck.inside chunk (last ▸ isLast)).imp id fun inside => inside.trans_le newAddr
  last := last ▸ stuck.last

theorem setLastNext (next : Nat) : gc.Stuck (gc.setLastNext pass next) blocks address := by
  rw [Compaction.setLastNext]
  split
  · exact stuck.congr le_rfl rfl fun _ _ _ => rfl
  · rename_i chunk isLast
    refine ⟨?_, ?_, stuck.below, stuck.inside, stuck.last⟩
    · apply stuck.tiled.congr
      intro block isBlock
      have bounds := stuck.tiled.bounds isBlock
      have positive := (stuck.tiled.valid isBlock).positive
      apply update_of_ne
      rcases stuck.last chunk isLast with above | ⟨other, isOther, low, high⟩
      · rw [Tile.stop] at bounds
        omega
      · rcases stuck.tiled.apart isBlock isOther with rfl | behind | earlier
        · omega
        · rw [Tile.stop] at behind
          omega
        · omega
    · dsimp only
      rw [update_of_ne]
      · exact stuck.empty
      · rcases stuck.last chunk isLast with above | ⟨other, isOther, -, high⟩
        · omega
        · have bounds := stuck.tiled.bounds isOther
          omega

theorem addChunk (below : pass.newAddr < stop) : gc.Stuck
    { gc.addChunkToFreelist pass pass.newAddr stop with newAddr := stop } blocks address := by
  have headed : gc.Stuck
      { pass with memory := update pass.memory pass.newAddr (stop - pass.newAddr) }
      blocks address :=
    stuck.congr le_rfl rfl fun cell _ high => update_of_ne high.ne _ _
  rw [addChunkToFreelist]
  dsimp only
  split
  · rename_i large
    have linked := headed.setLastNext pass.newAddr
    have low := stuck.tiled.start_le
    have atAddress := stuck.below
    have next := gc.platform.headerSize_lt_minObjectSize
    rw [Platform.headerSize] at next
    refine ⟨linked.tiled, linked.empty, stuck.below.trans below, ?_, ?_⟩
    · rintro _ ⟨⟩
      exact ⟨by omega, by dsimp only; omega⟩
    · rintro _ ⟨⟩
      exact .inl stuck.below
  · exact headed.congr below.le rfl fun _ _ _ => rfl

theorem skip (high : pass.newAddr ≤ pass.ptr) :
    gc.Stuck (gc.skipToConservativeRoot pass) blocks address := by
  rcases skip_cases gc high with ⟨same, -⟩ | ⟨below, same, -⟩ <;> rw [same]
  · exact stuck
  · exact stuck.addChunk below

end Stuck

/-! ## Moving a block -/

section
variable (live : gc.live tile = true) (header : memory blockAddr = tile.header)
include live header

theorem compactSlideBlock_header (positive : 0 < tile.size) (isBlock : tile.address = blockAddr)
    (moves : newAddr ≠ blockAddr) :
    (gc.compactSlideBlock memory blockAddr newAddr).1 newAddr =
      gc.movedHeader tile newAddr := by
  have size := live_size live
  have copied : slide memory newAddr blockAddr tile.size newAddr = tile.header := by
    simp [slide, positive, header]
  rw [compactSlideBlock, movedHeader, header, size, isBlock]
  by_cases taken : hdrHashcodeTaken tile.header = true
  · have apart : newAddr ≠ newAddr + tile.size := by omega
    simp [taken, moves, update_of_ne apart, copied]
  · simp [taken, copied]

theorem compactSlideBlock_apply (notHeader : cell ≠ newAddr)
    (notHash : hdrHashcodeTaken tile.header = true → cell ≠ newAddr + tile.size) :
    (gc.compactSlideBlock memory blockAddr newAddr).1 cell =
      slide memory newAddr blockAddr tile.size cell := by
  rw [compactSlideBlock, header, live_size live]
  by_cases taken : hdrHashcodeTaken tile.header = true
  · simp only [taken, ↓reduceIte]
    rw [update_of_ne notHeader, update_of_ne (notHash taken)]
  · simp [taken]

theorem compactSlideBlock_body (low : 0 < offset) (high : offset < tile.size) :
    (gc.compactSlideBlock memory blockAddr newAddr).1 (newAddr + offset) =
      memory (blockAddr + offset) := by
  rw [compactSlideBlock_apply live header (by omega) (by omega)]
  simp [slide, high]

theorem compactSlideBlock_elsewhere (isBlock : tile.address = blockAddr)
    (moves : newAddr ≠ blockAddr) (positive : 0 < tile.size)
    (outside : cell < newAddr ∨ newAddr + movedSize tile newAddr ≤ cell) :
    (gc.compactSlideBlock memory blockAddr newAddr).1 cell = memory cell := by
  have larger := le_movedSize tile newAddr
  rw [compactSlideBlock_apply live header (by omega), slide, if_neg (by omega)]
  intro taken
  have grown : movedSize tile newAddr = tile.size + objectGrain := by
    simp [movedSize, taken, isBlock, moves]
  rw [grown, objectGrain] at outside
  omega

end

theorem compactSlideBlock_grown (header : memory blockAddr = tile.header) :
    (gc.compactSlideBlock memory blockAddr newAddr).2 = hdrHashcodeTaken tile.header := by
  rw [compactSlideBlock, header]
  cases taken : hdrHashcodeTaken tile.header <;> simp

structure Moved (tile : Tile) (pass post : SecondPass) (header : Nat) : Prop where
  ptr : post.ptr = tile.stop
  newAddr : post.newAddr = pass.newAddr + movedSize tile pass.newAddr
  newlist : post.newlist = pass.newlist
  last : post.last = pass.last
  heapfree : post.heapfree = pass.heapfree
  header : post.memory pass.newAddr = header
  body : ∀ offset, 0 < offset → offset < tile.size →
    post.memory (pass.newAddr + offset) = pass.memory (tile.address + offset)
  elsewhere : ∀ cell, cell < pass.newAddr ∨ pass.newAddr + movedSize tile pass.newAddr ≤ cell →
    post.memory cell = pass.memory cell

theorem markedPhase2_moved (live : gc.live tile = true)
    (positive : 0 < tile.size) (header : pass.memory pass.ptr = tile.header)
    (isBlock : tile.address = pass.ptr) :
    Moved tile pass (gc.markedPhase2 pass tile.header) (gc.movedHeader tile pass.newAddr) := by
  have size := live_size live
  by_cases moves : pass.newAddr ≠ pass.ptr
  · have target : (if hdrHashcodeTaken tile.header = true then
          pass.newAddr + objectGrain else pass.newAddr) + tile.size =
        pass.newAddr + movedSize tile pass.newAddr := by
      rw [movedSize, isBlock]
      simp only [moves, true_and, ne_eq, not_false_eq_true]
      split <;> omega
    rw [markedPhase2, if_pos moves, size]
    exact
      { ptr := by rw [Tile.stop, isBlock]
        newAddr := by
          dsimp only
          rw [compactSlideBlock_grown header]
          exact target
        newlist := rfl
        last := rfl
        heapfree := rfl
        header := compactSlideBlock_header live header positive isBlock moves
        body := fun offset low high => by
          rw [isBlock]
          exact compactSlideBlock_body live header low high
        elsewhere := fun cell outside =>
          compactSlideBlock_elsewhere live header isBlock moves positive outside }
  · have stays : pass.newAddr = pass.ptr := not_not.mp moves
    have same : movedSize tile pass.newAddr = tile.size := by simp [movedSize, isBlock, stays]
    rw [markedPhase2, if_neg moves, size]
    exact
      { ptr := by rw [Tile.stop, isBlock]
        newAddr := by rw [same]
        newlist := rfl
        last := rfl
        heapfree := rfl
        header := by simp [movedHeader, isBlock, stays, header]
        body := fun offset _ _ => by rw [isBlock, stays]
        elsewhere := fun cell _ => rfl }

namespace Built

variable {final : Memory} {tiles pre blocks : List Tile} {tile : Tile}
  {pass post : SecondPass}

theorem place (built : gc.Built final tiles pre blocks pass)
    (live : gc.live tile = true) (room : gc.Room tiles tile) (valid : tile.Valid)
    (lands : gc.landing tiles gc.base tile.address = pass.newAddr)
    (body : ∀ offset, gc.headerSize ≤ offset → offset < tile.size →
      pass.memory (tile.address + offset) = final (tile.address + offset))
    (moved : Moved tile pass post (gc.movedHeader tile pass.newAddr)) :
    gc.Built final tiles (pre ++ [tile]) (blocks ++ [gc.movedBlock tiles tile]) post := by
  have kept := built.congr post.memory fun cell _ high => moved.elsewhere cell (.inl high)
  have alloced : hdrAlloced (gc.movedBlock tiles tile).header = true := movedHeader_alloced live
  have size : (gc.movedBlock tiles tile).size = movedSize tile pass.newAddr := by
    rw [movedBlock_size live room, lands]
  have larger := le_movedSize tile pass.newAddr
  have unlisted : gc.freeChunks (blocks ++ [gc.movedBlock tiles tile]) =
      gc.freeChunks blocks := by
    simp [freeChunks, onFreelist, alloced]
  exact
    { tiled := by
        apply kept.tiled.append
        refine ⟨lands, ?_, ⟨?_, ?_⟩, ?_⟩
        · rw [moved.header, movedBlock, lands]
        · rw [size]
          exact movedSize_grain valid
        · have positive := valid.positive
          omega
        · rw [Tile.stop, size, moved.newAddr, movedBlock, lands]
          rfl
      moved := by
        intro other mem otherLive
        rcases mem_append.mp mem with earlier | isSame
        · obtain ⟨isBlock, fits⟩ := built.moved other earlier otherLive
          exact ⟨mem_append_left _ isBlock, fits⟩
        · rw [mem_singleton.mp isSame]
          exact ⟨by simp, size ▸ larger⟩
      contents := by
        intro other mem otherLive offset low high
        rcases mem_append.mp mem with earlier | isSame
        · exact kept.contents other earlier otherLive offset low high
        · have word := gc.platform.isWord
          rw [headerSize, Platform.headerSize] at low
          rw [mem_singleton.mp isSame] at high ⊢
          rw [movedBlock, lands, moved.body offset (by omega) high]
          exact body offset low high
      origin := by
        intro block mem isAlloced
        rcases mem_append.mp mem with old | isNew
        · obtain ⟨other, isOther, otherLive, same⟩ := built.origin block old isAlloced
          exact ⟨other, mem_append_left _ isOther, otherLive, same⟩
        · exact ⟨tile, by simp, live, mem_singleton.mp isNew⟩
      chunks := by
        rw [unlisted]
        refine chunks_of_same ?_ ?_ ?_ kept.chunks
        · rfl
        · exact moved.newlist
        · exact moved.last
      last := by rw [unlisted, moved.last, built.last]
      heapfree := by
        rw [moved.heapfree, built.heapfree]
        simp [freeSize, alloced] }

theorem stuck (built : gc.Built final tiles pre blocks pass) (live : gc.live tile = true)
    (full : ¬ gc.Room tiles tile) (valid : tile.Valid)
    (lands : gc.landing tiles gc.base tile.address = pass.newAddr)
    (moved : Moved tile pass post (gc.movedHeader tile pass.newAddr)) :
    gc.Stuck post blocks pass.newAddr := by
  have kept := built.congr post.memory fun cell _ high => moved.elsewhere cell (.inl high)
  have larger := le_movedSize tile pass.newAddr
  have positive := valid.positive
  refine ⟨kept.tiled, ?_, ?_, ?_, ?_⟩
  · rw [moved.header, ← lands]
    exact movedHeader_empty live full
  · rw [moved.newAddr]
    omega
  · intro chunk isLast
    obtain ⟨low, high⟩ := built.lastInside chunk (moved.last ▸ isLast)
    rw [moved.newAddr]
    exact ⟨low, by omega⟩
  · intro chunk isLast
    rw [moved.last] at isLast
    obtain ⟨block, isBlock, rfl, -, -, low, high, -⟩ :=
      built.chunk_inside (List.mem_of_getLast? (built.last ▸ isLast))
    exact .inr ⟨block, isBlock, low, high⟩

theorem dead (built : gc.Built final tiles pre blocks pass)
    (dead : gc.live tile = false) (ptr : Nat) :
    gc.Built final tiles (pre ++ [tile]) blocks { pass with ptr } := by
  have earlier : ∀ other ∈ pre ++ [tile], gc.live other = true → other ∈ pre := by
    intro other mem live
    rcases mem_append.mp mem with isEarlier | isSame
    · exact isEarlier
    · rw [mem_singleton.mp isSame, dead] at live
      exact absurd live (by decide)
  exact
    { built with
      moved := fun other mem live => built.moved other (earlier other mem live) live
      contents := fun other mem live => built.contents other (earlier other mem live) live
      origin := by
        intro block isBlock alloced
        obtain ⟨other, isOther, live, same⟩ := built.origin block isBlock alloced
        exact ⟨other, mem_append_left _ isOther, live, same⟩
      chunks := by refine chunks_of_same ?_ ?_ ?_ built.chunks <;> rfl }

end Built

end JamVM.Alloc.Compaction
