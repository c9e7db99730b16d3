import JamVM.Alloc.Compact

/-! # What a compaction has to achieve

The words that are threaded or cleared are read off the memory before the
compaction, and so is the address to which each marked block moves.
-/

namespace JamVM.Alloc.Compaction

variable (gc : Compaction)

/-! ## Slots -/

def referenceKind (cb : ClassBlock) : Option ReferenceKind :=
  if cb.hasArrayName || cb.flags.classClass || cb.flags.classLoader then none
  else cb.flags.reference

variable (memory : Memory)

section
variable (ob : Nat)

def threadedReferent (kind : ReferenceKind) : List Nat :=
  let referent := ob + gc.referentOffset
  if memory referent ≠ 0 ∧ (kind = .phantom ∨ keepsReferent kind (gc.marks (memory referent))) then
    [referent]
  else
    []

def clearedReferent (kind : ReferenceKind) : List Nat :=
  let referent := ob + gc.referentOffset
  if memory referent ≠ 0 ∧ ¬(kind = .phantom ∨ keepsReferent kind (gc.marks (memory referent))) then
    [referent]
  else
    []

def specialSlots (cb : ClassBlock) : List Nat :=
  if cb.flags.classClass then
    gc.classSlots ob
  else if cb.flags.classLoader then
    gc.loaderTable ob
  else
    match cb.flags.reference with
    | some kind => gc.threadedReferent memory ob kind
    | none => []

def contentSlots (cb : ClassBlock) : List Nat :=
  if cb.hasArrayName then
    if cb.hasReferenceElements then gc.elementSlots memory ob else []
  else
    gc.specialSlots memory ob cb ++ gc.instanceSlots ob cb

def threadedSlots : List Nat :=
  let type := memory (gc.classSlot ob)
  if type = 0 then [] else gc.contentSlots memory ob (gc.classBlock type) ++ [gc.classSlot ob]

def clearedContents (cb : ClassBlock) : List Nat :=
  match referenceKind cb with
  | some kind => gc.clearedReferent memory ob kind
  | none => []

def clearedSlots : List Nat :=
  let type := memory (gc.classSlot ob)
  if type = 0 then [] else gc.clearedContents memory ob (gc.classBlock type)

def slotsOf : List Nat := gc.clearedSlots memory ob ++ gc.threadedSlots memory ob

end

/-! ## Live blocks -/

def object (tile : Tile) : Nat := tile.address + gc.headerSize

def live (tile : Tile) : Bool := hdrAlloced tile.header && gc.marks (gc.object tile) != 0

section
variable (tiles : List Tile)

def threadedWords : List Nat :=
  gc.rootSlots ++ (tiles.filter gc.live).flatMap fun tile =>
    gc.threadedSlots memory (gc.object tile)

def clearedWords : List Nat :=
  (tiles.filter gc.live).flatMap fun tile => gc.clearedSlots memory (gc.object tile)

def allSlots : List Nat :=
  gc.rootSlots ++ (tiles.filter gc.live).flatMap fun tile => gc.slotsOf memory (gc.object tile)

/-! ## Destinations -/

def movedSize (tile : Tile) (start : Nat) : Nat :=
  if start ≠ tile.address ∧ hdrHashcodeTaken tile.header then tile.size + objectGrain else tile.size

def movedHeader (tile : Tile) (start : Nat) : Nat :=
  if start ≠ tile.address ∧ hdrHashcodeTaken tile.header then
    gc.grownHeader tile.header
  else
    tile.header

def landing : List Tile → Nat → Nat → Nat
  | [], _, addr => addr
  | tile :: rest, newAddr, addr =>
    if gc.live tile then
      let start := gc.destinationOf tile.address newAddr
      if addr = tile.address then start else landing rest (start + movedSize tile start) addr
    else
      landing rest newAddr addr

def relocation (ob : Nat) : Nat := gc.landing tiles gc.base (ob - gc.headerSize) + gc.headerSize

def relocatedWord (relocate : Nat → Nat) (cell : Nat) : Nat :=
  if cell ∈ gc.threadedWords memory tiles then
    if memory cell = 0 then 0 else relocate (memory cell)
  else if cell ∈ gc.clearedWords memory tiles then
    0
  else
    memory cell

/-! ## Well-formed heaps -/

def Outside (cell : Nat) : Prop := cell < gc.base ∨ gc.limit ≤ cell

instance (cell : Nat) : Decidable (gc.Outside cell) := inferInstanceAs (Decidable (_ ∨ _))

def IsLive (ob : Nat) : Prop := ∃ tile ∈ tiles, gc.live tile = true ∧ ob = gc.object tile

instance (ob : Nat) : Decidable (gc.IsLive tiles ob) :=
  inferInstanceAs (Decidable (∃ tile ∈ tiles, _))

end

structure Fits (tile : Tile) : Prop where
  minimum : gc.platform.minObjectSize ≤ tile.size
  length : (gc.classBlock (memory (gc.classSlot (gc.object tile)))).hasArrayName = true →
    gc.headerSize + gc.platform.objectSize < tile.size
  referent : (referenceKind (gc.classBlock
      (memory (gc.classSlot (gc.object tile))))).isSome = true →
    gc.headerSize + gc.referentOffset < tile.size ∧ gc.headerSize + gc.queueOffset < tile.size

instance (tile : Tile) : Decidable (gc.Fits memory tile) :=
  decidable_of_iff (_ ∧ _ ∧ _)
    ⟨fun all => ⟨all.1, all.2.1, all.2.2⟩, fun fits => ⟨fits.minimum, fits.length, fits.referent⟩⟩

/-- The heap is tiled by blocks. Every threaded word is in the block it is
threaded for or outside the heap, is threaded only once, and is `NULL` or refers
to a marked object. -/
structure WellFormed (reference : ObjectList Nat) (tiles : List Tile) : Prop where
  tiled : Tiles memory gc.limit gc.base tiles
  fits : ∀ tile ∈ tiles, gc.live tile = true → gc.Fits memory tile
  roots : ∀ slot ∈ gc.rootSlots, gc.Outside slot
  inside : ∀ tile ∈ tiles, gc.live tile = true → ∀ slot ∈ gc.slotsOf memory (gc.object tile),
      gc.object tile ≤ slot ∧ slot < tile.stop ∨ gc.Outside slot
  distinct : (gc.allSlots memory tiles).Nodup
  aligned : ∀ slot ∈ gc.threadedWords memory tiles, slot % 4 = 0
  references : ∀ slot ∈ gc.threadedWords memory tiles,
    memory slot = 0 ∨ gc.IsLive tiles (memory slot)
  inRange : reference.InRange
  queued : ∀ ob, some ob ∈ reference.iterateObjectList → gc.IsLive tiles ob
  listed : ∀ index < (gc.firstPass memory reference).reference.size,
    gc.Outside (gc.referenceSlot index) ∧ gc.referenceSlot index % 4 = 0 ∧
      gc.referenceSlot index ∉ gc.threadedWords memory tiles ∧
      gc.referenceSlot index ∉ gc.clearedWords memory tiles
  enough : (gc.threadedWords memory tiles).length +
    (gc.firstPass memory reference).reference.size ≤ gc.links

/-! ## The result -/

/-- The object graph before the compaction is found again after it, with every
marked object moved from `ob` to `relocate ob`. -/
structure Preserved (tiles : List Tile) (res : Compacted) (relocate : Nat → Nat) : Prop where
  increasing : ∀ ob other, gc.IsLive tiles ob → gc.IsLive tiles other →
    ob < other → relocate ob < relocate other
  down : ∀ ob, gc.IsLive tiles ob → relocate ob ≤ ob
  fixed : ∀ ob ∈ gc.conservativeRoots, gc.IsLive tiles ob → relocate ob = ob
  inHeap : ∀ ob, gc.IsLive tiles ob → gc.base + gc.headerSize ≤ relocate ob ∧
      relocate ob - gc.headerSize + hdrSize (res.memory (relocate ob - gc.headerSize)) ≤ gc.limit
  disjoint : ∀ ob other, gc.IsLive tiles ob → gc.IsLive tiles other →
    ob < other → relocate ob - gc.headerSize +
      hdrSize (res.memory (relocate ob - gc.headerSize)) ≤ relocate other - gc.headerSize
  contents : ∀ tile ∈ tiles, gc.live tile = true →
    ∀ offset, gc.headerSize ≤ offset → offset < tile.size →
      res.memory (relocate (gc.object tile) - gc.headerSize + offset) =
        gc.relocatedWord memory tiles relocate (tile.address + offset)
  roots : ∀ slot ∈ gc.rootSlots,
    res.memory slot = if memory slot = 0 then 0 else relocate (memory slot)
  outside : ∀ cell, gc.Outside cell →
    (∀ index < res.reference.size, cell ≠ gc.referenceSlot index) →
      res.memory cell = gc.relocatedWord memory tiles relocate cell
  listed : ∀ index ∈ res.reference.iterateIndices, res.memory (gc.referenceSlot index) =
      ((res.reference.list index).map relocate).getD 0
  unthreaded : ∃ blocks, Tiles res.memory gc.limit gc.base blocks ∧
    (∀ block ∈ blocks, hdrThreaded block.header = false) ∧
    ∀ ob, gc.IsLive tiles ob → ∃ block ∈ blocks, gc.object block = relocate ob
  growth : ∀ tile ∈ tiles, gc.live tile = true →
    hdrSize (res.memory (relocate (gc.object tile) - gc.headerSize)) =
      if hdrHashcodeTaken tile.header ∧ relocate (gc.object tile) ≠ gc.object tile then
        tile.size + objectGrain
      else
        tile.size

end JamVM.Alloc.Compaction
