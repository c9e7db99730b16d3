import JamVM.Alloc.CompactSlide

/-! # The second walk over a threaded heap

While the second walk goes up, the slots that are still threaded stay ahead of it,
so that a block is moved only when all of its words have their final value.
-/

namespace JamVM.Alloc.Compaction

open Threading

variable {gc : Compaction}

/-! ## One step of the second walk -/

theorem secondPassStep_dead {pass : SecondPass} (dead : gc.live tile = false) (valid : tile.Valid)
    (atTile : tile.address = pass.ptr) (same : pass.memory pass.ptr = tile.header) :
    gc.secondPassStep pass = { pass with ptr := tile.stop } := by
  have unmarked := unmarked_of_dead dead atTile
  rw [Tile.stop, Tile.size, blockSize, atTile]
  cases alloced : hdrAlloced tile.header with
  | true => simp [secondPassStep, same, valid.unthreaded, alloced, unmarked alloced]
  | false => simp [secondPassStep, same, valid.unthreaded, alloced]

theorem secondPassStep_live {pass : SecondPass} (live : gc.live tile = true)
    (atTile : tile.address = pass.ptr)
    (isSkipped : skipped = gc.skipToConservativeRoot pass) (ptr : skipped.ptr = pass.ptr)
    (isWord : word = skipped.newAddr + gc.headerSize)
    (header : skipped.memory pass.ptr = pass.memory pass.ptr)
    (restored : gc.unthreadHeader skipped.memory pass.ptr word pass.ptr = tile.header)
    (visited : hdrThreaded (skipped.memory pass.ptr) = true ∨
      skipped.memory pass.ptr = tile.header ∧
        gc.unthreadHeader skipped.memory pass.ptr word = skipped.memory) :
    gc.secondPassStep pass = gc.markedPhase2
      { skipped with memory := gc.unthreadHeader skipped.memory pass.ptr word }
      tile.header := by
  obtain ⟨alloced, marked⟩ := live_iff.mp live
  rw [object, atTile] at marked
  subst isWord
  rw [secondPassStep, ← header, ← isSkipped]
  rcases visited with isThreaded | ⟨same, unchanged⟩
  · simp only [isThreaded, ↓reduceIte, ptr, restored]
  · simp only [same, hdrThreaded_of_alloced alloced, alloced, unchanged, marked,
      Bool.false_eq_true, ↓reduceIte, ne_eq, not_false_eq_true]

/-! ## The invariant -/

variable (gc) in
/-- The blocks of `before` have been walked and moved. The slots that are still
threaded are outside the heap or in blocks that have not been walked. -/
structure SecondInvariant (origin final : Memory) (tiles pre suffix : List Tile)
    (pending : Nat → List Nat) (settled : Set Nat) (pass : SecondPass) : Prop where
  split : tiles = pre ++ suffix
  tiled : Tiles origin gc.limit pass.ptr suffix
  walk : gc.Walk tiles suffix pass.ptr pass.newAddr
  threaded : Threaded origin final (gc.newObject tiles) (gc.headers suffix)
    {cell | cell < gc.base ∨ pass.ptr ≤ cell} pending settled pass.memory
  position : ∀ header ∈ gc.headers suffix, ∀ slot ∈ pending header, slot < gc.base ∨ header < slot
  complete : ∀ cell, final cell ≠ origin cell →
    cell ∈ settled ∨ ∃ header ∈ gc.headers suffix, cell ∈ pending header
  starts : ∀ tile ∈ suffix, tile.address ∉ settled ∧
    ∀ header ∈ gc.headers suffix, tile.address ∉ pending header
  enough : ∀ header ∈ gc.headers suffix, (pending header).length ≤ gc.links
  built : gc.Roomy tiles pre → ∃ blocks, gc.Built final tiles pre blocks pass
  stuck : ¬ gc.Roomy tiles pre → ∃ blocks address, gc.Stuck pass blocks address

namespace SecondInvariant

variable {origin final : Memory} {tiles pre rest : List Tile} {tile : Tile}
  {pending : Nat → List Nat} {settled : Set Nat} {pass : SecondPass}

theorem header_above (tiled : Tiles origin gc.limit tile.stop rest)
    (isHeader : header ∈ gc.headers rest) : tile.stop ≤ header := by
  obtain ⟨other, isOther, -, rfl⟩ := isHeader
  exact (tiled.bounds isOther).1

theorem headers_cons : gc.headers rest ⊆ gc.headers (tile :: rest) := by
  rintro header ⟨other, isOther, live, same⟩
  exact ⟨other, List.mem_cons_of_mem _ isOther, live, same⟩

theorem headers_cases (isHeader : header ∈ gc.headers (tile :: rest)) :
    gc.live tile = true ∧ header = tile.address ∨ header ∈ gc.headers rest := by
  obtain ⟨other, isOther, live, rfl⟩ := isHeader
  rcases List.mem_cons.mp isOther with rfl | isLater
  · exact .inl ⟨live, rfl⟩
  · exact .inr ⟨other, isLater, live, rfl⟩

variable {memory : Memory}

section
variable (tiled : Tiles origin gc.limit ptr (tile :: rest)) (base : gc.base ≤ ptr)
  (threaded : Threaded origin final (gc.newObject tiles) (gc.headers (tile :: rest))
    {cell | cell < gc.base ∨ ptr ≤ cell} pending settled memory)
  (position : ∀ header ∈ gc.headers (tile :: rest), ∀ slot ∈ pending header,
    slot < gc.base ∨ header < slot)
include tiled base threaded position

theorem leave (empty : gc.live tile = true → pending tile.address = []) :
    Threaded origin final (gc.newObject tiles) (gc.headers rest)
      {cell | cell < gc.base ∨ tile.stop ≤ cell} pending settled memory := by
  obtain ⟨atTile, -, valid, later⟩ := tiled
  have positive := valid.positive
  have ends : tile.stop = ptr + tile.size := by rw [Tile.stop, atTile]
  apply threaded.restrict headers_cons
  · rintro cell (below | above)
    · exact .inl below
    · exact .inr (by omega)
  · intro header isHeader
    have above := header_above later isHeader
    refine ⟨.inr above, fun slot mem => ?_⟩
    rcases position header (headers_cons isHeader) slot mem with below | behind
    · exact .inl below
    · exact .inr (by omega)
  · intro header isHeader gone
    obtain ⟨live, rfl⟩ := (headers_cases isHeader).resolve_right gone
    refine ⟨?_, empty live⟩
    rintro (below | above)
    · omega
    · omega

theorem body_final (complete : ∀ cell, final cell ≠ origin cell → cell ∈ settled ∨
      ∃ header ∈ gc.headers (tile :: rest), cell ∈ pending header)
    (empty : pending tile.address = [])
    (low : tile.address < cell) (high : cell < tile.stop) : memory cell = final cell := by
  obtain ⟨atTile, -, -, later⟩ := tiled
  have notPending : ∀ header ∈ gc.headers (tile :: rest), cell ∉ pending header := by
    intro header isHeader mem
    rcases headers_cases isHeader with ⟨-, rfl⟩ | isLater
    · simp [empty] at mem
    · have above := header_above later isLater
      rcases position header isHeader cell mem with below | behind
      · omega
      · omega
  have notHeader : cell ∉ gc.headers (tile :: rest) := by
    intro isHeader
    rcases headers_cases isHeader with ⟨-, rfl⟩ | isLater
    · omega
    · have above := header_above later isLater
      omega
  have inside : cell ∈ {cell | cell < gc.base ∨ ptr ≤ cell} := .inr (by omega)
  by_cases isSettled : cell ∈ settled
  · exact threaded.value cell isSettled inside
  · rw [threaded.untouched cell inside notHeader isSettled notPending]
    by_contra differs
    rcases complete cell (Ne.symm differs) with settles | ⟨header, isHeader, mem⟩
    · exact isSettled settles
    · exact notPending header isHeader mem

end

section
variable (inv : gc.SecondInvariant origin final tiles pre (tile :: rest) pending settled pass)
include inv

theorem dead (dead : gc.live tile = false) :
    gc.SecondInvariant origin final tiles (pre ++ [tile]) rest pending settled
      (gc.secondPassStep pass) := by
  have tiled := inv.tiled
  obtain ⟨atTile, header, valid, later⟩ := tiled
  have low : gc.base ≤ pass.ptr := inv.walk.low.trans inv.walk.high
  have notHeader : tile.address ∉ gc.headers (tile :: rest) :=
    dead_not_header inv.tiled (by simp) dead
  obtain ⟨notSettled, notPending⟩ := inv.starts tile (by simp)
  have same : pass.memory pass.ptr = tile.header := by
    rw [← header, ← atTile]
    exact inv.threaded.untouched tile.address (.inr (le_of_eq atTile.symm)) notHeader
      notSettled notPending
  have sameHeaders : gc.headers rest = gc.headers (tile :: rest) := by
    apply Set.Subset.antisymm headers_cons
    intro cell isHeader
    exact (headers_cases isHeader).resolve_left (by simp [dead])
  have roomy : gc.Roomy tiles (pre ++ [tile]) ↔ gc.Roomy tiles pre := by
    simp [roomy_append, dead]
  rw [secondPassStep_dead dead valid atTile same]
  exact
    { split := by simp [inv.split]
      tiled := later
      walk := inv.walk.dead inv.tiled dead
      threaded := leave inv.tiled low inv.threaded inv.position
        fun live => absurd (dead.symm.trans live) (by decide)
      position := sameHeaders ▸ inv.position
      complete := sameHeaders ▸ inv.complete
      starts := fun other mem => sameHeaders ▸ inv.starts other (List.mem_cons_of_mem _ mem)
      enough := sameHeaders ▸ inv.enough
      built := by
        rw [roomy]
        intro rooms
        obtain ⟨blocks, built⟩ := inv.built rooms
        exact ⟨blocks, built.dead dead tile.stop⟩
      stuck := by
        rw [roomy]
        intro full
        obtain ⟨blocks, address, stuck⟩ := inv.stuck full
        exact ⟨blocks, address, stuck.congr le_rfl rfl fun _ _ _ => rfl⟩ }

omit inv in
theorem lastInside
    (inv : gc.SecondInvariant origin final tiles pre suffix pending settled pass) :
    gc.LastInside pass := by
  by_cases rooms : gc.Roomy tiles pre
  · obtain ⟨blocks, built⟩ := inv.built rooms
    exact built.lastInside
  · obtain ⟨blocks, address, stuck⟩ := inv.stuck rooms
    exact stuck.inside

theorem skip (live : gc.live tile = true) :
    gc.SecondInvariant origin final tiles pre (tile :: rest) pending settled
        (gc.skipToConservativeRoot pass) ∧
      (gc.skipToConservativeRoot pass).ptr = pass.ptr ∧
      (gc.skipToConservativeRoot pass).newAddr = gc.landing tiles gc.base tile.address ∧
      (gc.skipToConservativeRoot pass).memory pass.ptr = pass.memory pass.ptr := by
  have lands := inv.walk.landing live
  obtain ⟨atTile, -, -, -⟩ := inv.tiled
  obtain ⟨above, below, grain⟩ := destinationOf_bounds gc inv.walk.high inv.walk.grain
  obtain ⟨samePtr, target, same⟩ := inv.lastInside.skip inv.walk.low inv.walk.high
  have fixed : gc.destinationOf tile.address (gc.destinationOf pass.ptr pass.newAddr) =
        gc.destinationOf tile.address pass.newAddr := by
    rw [atTile, destinationOf, destinationOf]
    split <;> rfl
  refine ⟨?_, samePtr, by rw [target, lands, atTile], same pass.ptr (.inr le_rfl)⟩
  refine { inv with tiled := ?_, walk := ?_, threaded := ?_, built := ?_, stuck := ?_ }
  · rw [samePtr]
    exact inv.tiled
  · rw [samePtr, target]
    refine ⟨inv.walk.low.trans above, below, grain, fun other mem otherLive => ?_⟩
    rw [inv.walk.agrees other mem otherLive]
    simp only [landing, live, ↓reduceIte, fixed]
  · rw [samePtr]
    exact inv.threaded.congr same
  · intro rooms
    obtain ⟨blocks, built⟩ := inv.built rooms
    exact built.skip inv.walk.high inv.walk.grain
  · intro full
    obtain ⟨blocks, address, stuck⟩ := inv.stuck full
    exact ⟨blocks, address, stuck.skip inv.walk.high⟩

theorem unthread (isHeader : tile.address ∈ gc.headers (tile :: rest)) :
    gc.SecondInvariant origin final tiles pre (tile :: rest)
      (Function.update pending tile.address []) (settled ∪ {slot | slot ∈ pending tile.address})
      { pass with
        memory := gc.unthreadHeader pass.memory tile.address
          (gc.newObject tiles tile.address) } := by
  have enough := inv.enough tile.address isHeader
  have members : ∀ other slot, slot ∈ Function.update pending tile.address [] other →
      slot ∈ pending other := by
    intro other slot mem
    by_cases same : other = tile.address
    · simp [same] at mem
    · rwa [Function.update_of_ne same] at mem
  have high := inv.walk.high
  have same : ∀ cell, gc.base ≤ cell → cell < pass.newAddr →
      gc.unthreadHeader pass.memory tile.address (gc.newObject tiles tile.address) cell =
        pass.memory cell := fun cell low below =>
    inv.threaded.unthread_outside isHeader enough (by
      rintro (isBelow | isAbove) <;> omega)
  exact
    { split := inv.split
      __ := inv
      threaded := inv.threaded.unthread isHeader enough
      position := fun other isOther slot mem =>
        inv.position other isOther slot (members other slot mem)
      complete := by
        intro cell differs
        rcases inv.complete cell differs with isSettled | ⟨other, isOther, mem⟩
        · exact .inl (.inl isSettled)
        · by_cases same : other = tile.address
          · exact .inl (.inr (same ▸ mem))
          · exact .inr ⟨other, isOther, by rwa [Function.update_of_ne same]⟩
      starts := by
        intro other isOther
        obtain ⟨notSettled, notPending⟩ := inv.starts other isOther
        exact ⟨fun either => either.elim notSettled (notPending tile.address isHeader),
          fun header isHeader mem => notPending header isHeader (members header _ mem)⟩
      enough := by
        intro other isOther
        by_cases same : other = tile.address
        · simp [same]
        · rw [Function.update_of_ne same]
          exact inv.enough other isOther
      built := by
        intro rooms
        obtain ⟨blocks, built⟩ := inv.built rooms
        exact ⟨blocks, built.congr _ same⟩
      stuck := by
        intro full
        obtain ⟨blocks, address, stuck⟩ := inv.stuck full
        exact ⟨blocks, address, stuck.congr le_rfl rfl same⟩ }

theorem move (live : gc.live tile = true) (empty : pending tile.address = [])
    (lands : gc.landing tiles gc.base tile.address = pass.newAddr)
    (moved : Moved tile pass post (gc.movedHeader tile pass.newAddr)) :
    gc.SecondInvariant origin final tiles (pre ++ [tile]) rest pending settled post := by
  obtain ⟨atTile, -, valid, later⟩ := inv.tiled
  have low : gc.base ≤ pass.ptr := inv.walk.low.trans inv.walk.high
  have word := gc.platform.isWord
  have target : gc.destinationOf tile.address pass.newAddr = pass.newAddr :=
    (inv.walk.landing live).symm.trans lands
  have walk := inv.walk.live inv.tiled live
  rw [target] at walk
  have left := leave inv.tiled low inv.threaded inv.position fun _ => empty
  have kept : ∀ header ∈ gc.headers (tile :: rest), ∀ cell ∈ pending header,
      header ∈ gc.headers rest := by
    intro header isHeader cell mem
    refine (headers_cases isHeader).resolve_left ?_
    rintro ⟨-, rfl⟩
    simp [empty] at mem
  exact
    { split := by simp [inv.split]
      tiled := by
        rw [moved.ptr]
        exact later
      walk := by
        rw [moved.ptr, moved.newAddr]
        exact walk
      threaded := by
        rw [moved.ptr]
        apply left.congr
        intro cell inside
        have base := inv.walk.low
        have fits := walk.high
        exact moved.elsewhere cell (inside.imp (fun below => below.trans_le base) fits.trans)
      position := fun header isHeader => inv.position header (headers_cons isHeader)
      complete := fun cell differs => (inv.complete cell differs).imp id
        fun ⟨header, isHeader, mem⟩ => ⟨header, kept header isHeader cell mem, mem⟩
      starts := by
        intro other isOther
        obtain ⟨notSettled, notPending⟩ := inv.starts other (List.mem_cons_of_mem _ isOther)
        exact ⟨notSettled, fun header isHeader => notPending header (headers_cons isHeader)⟩
      enough := fun header isHeader => inv.enough header (headers_cons isHeader)
      built := by
        intro rooms
        obtain ⟨rooms, room⟩ := (roomy_append tiles pre tile).mp rooms
        obtain ⟨blocks, built⟩ := inv.built rooms
        refine ⟨_, built.place live (room live) valid lands (fun offset atLeast atMost => ?_) moved⟩
        rw [headerSize, Platform.headerSize] at atLeast
        apply body_final inv.tiled low inv.threaded inv.position inv.complete empty
        · omega
        · rw [Tile.stop]
          omega
      stuck := by
        intro full
        by_cases rooms : gc.Roomy tiles pre
        · obtain ⟨blocks, built⟩ := inv.built rooms
          have noRoom : ¬ gc.Room tiles tile := fun room =>
            full ((roomy_append tiles pre tile).mpr ⟨rooms, fun _ => room⟩)
          exact ⟨blocks, pass.newAddr, built.stuck live noRoom valid lands moved⟩
        · obtain ⟨blocks, address, stuck⟩ := inv.stuck rooms
          refine ⟨blocks, address, stuck.congr ?_ moved.last fun cell _ high =>
            moved.elsewhere cell (.inl high)⟩
          rw [moved.newAddr]
          exact Nat.le_add_right _ _ }

theorem live (live : gc.live tile = true) :
    ∃ next resolved, gc.SecondInvariant origin final tiles (pre ++ [tile]) rest next
      resolved (gc.secondPassStep pass) := by
  have isHeader : tile.address ∈ gc.headers (tile :: rest) := ⟨tile, by simp, live, rfl⟩
  obtain ⟨atTile, header, valid, -⟩ := inv.tiled
  obtain ⟨skipped, samePtr, target, same⟩ := inv.skip live
  have unthreaded := skipped.unthread isHeader
  obtain ⟨restored, visited⟩ := visit (gc.newObject tiles tile.address) skipped.threaded
    isHeader (skipped.enough tile.address isHeader)
  have word : gc.newObject tiles pass.ptr =
      (gc.skipToConservativeRoot pass).newAddr + gc.headerSize := by
    rw [newObject, target, atTile]
  rw [atTile] at restored visited
  rw [header] at restored visited
  rw [secondPassStep_live live atTile rfl samePtr word same restored visited]
  refine ⟨_, _, unthreaded.move live (by simp) target.symm ?_⟩
  rw [atTile]
  exact markedPhase2_moved live valid.positive (by rw [samePtr]; exact restored)
    (atTile.trans samePtr.symm)

end

theorem secondPass
    (initially : gc.SecondInvariant origin final tiles [] tiles pending settled
      { memory := memory
        ptr := gc.base
        newAddr := gc.base
        newlist := 0
        last := none
        largest := 0
        heapfree := 0 }) :
    ∃ next resolved, gc.SecondInvariant origin final tiles tiles [] next resolved
      (gc.secondPass memory) := by
  refine gc.walk_along SecondPass.ptr (fun pre suffix pass => ∃ next resolved,
    gc.SecondInvariant origin final tiles pre suffix next resolved pass)
    (fun ⟨_, _, inv⟩ => inv.tiled) ?_ rfl ⟨pending, settled, initially⟩
  rintro pre tile rest pass ⟨next, resolved, inv⟩
  cases isLive : gc.live tile with
  | true => exact inv.live isLive
  | false => exact ⟨next, resolved, inv.dead isLive⟩

end SecondInvariant

end JamVM.Alloc.Compaction
