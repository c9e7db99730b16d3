import Mathlib.Data.List.Perm.Subperm
import JamVM.Alloc.CompactPlan

/-! # The first walk of a compaction

The first walk leaves every header with the slots that refer to its object from
further up, and all other threaded slots with their final value.
-/

namespace JamVM.Alloc.Compaction

open Threading
open List (mem_append mem_append_left mem_cons mem_singleton nodup_append)

attribute [local simp] threadedReferent

variable {gc : Compaction}

/-! ## Destinations along a walk -/

variable (gc) in
theorem destinationOf_bounds (high : newAddr ≤ ptr) (grain : objectGrain ∣ ptr - newAddr) :
    newAddr ≤ gc.destinationOf ptr newAddr ∧ gc.destinationOf ptr newAddr ≤ ptr ∧
      objectGrain ∣ ptr - gc.destinationOf ptr newAddr := by
  rw [destinationOf]
  split
  · exact ⟨high, le_rfl, by simp⟩
  · exact ⟨le_rfl, high, grain⟩

theorem movedSize_fits (valid : tile.Valid)
    (below : start ≤ tile.address) (grain : objectGrain ∣ tile.address - start) :
    start + movedSize tile start ≤ tile.stop ∧
      objectGrain ∣ tile.stop - (start + movedSize tile start) ∧
      tile.size ≤ movedSize tile start := by
  have sizeGrain := valid.grain
  simp only [movedSize, Tile.stop, objectGrain] at grain sizeGrain ⊢
  split
  · omega
  · omega

variable (gc) in
structure Walk (tiles suffix : List Tile) (ptr newAddr : Nat) : Prop where
  low : gc.base ≤ newAddr
  high : newAddr ≤ ptr
  grain : objectGrain ∣ ptr - newAddr
  agrees : ∀ tile ∈ suffix, gc.live tile = true → gc.landing tiles gc.base tile.address =
      gc.landing suffix newAddr tile.address

namespace Walk

variable {memory : Memory} {stop ptr newAddr : Nat} {tiles rest : List Tile} {tile : Tile}

theorem start (tiles : List Tile) : gc.Walk tiles tiles gc.base gc.base :=
  ⟨le_rfl, le_rfl, by simp, fun _ _ _ => rfl⟩

section
variable (walk : gc.Walk tiles (tile :: rest) ptr newAddr)
include walk

theorem landing (live : gc.live tile = true) : gc.landing tiles gc.base tile.address =
      gc.destinationOf tile.address newAddr := by
  rw [walk.agrees tile (by simp) live]
  simp [Compaction.landing, live]

theorem dead (tiled : Tiles memory stop ptr (tile :: rest)) (dead : gc.live tile = false) :
    gc.Walk tiles rest tile.stop newAddr := by
  obtain ⟨atStart, -, valid, -⟩ := tiled
  have sizeGrain := valid.grain
  have grain := walk.grain
  have high := walk.high
  simp only [objectGrain] at sizeGrain grain
  refine ⟨walk.low, ?_, ?_, ?_⟩
  · rw [Tile.stop]
    omega
  · simp only [Tile.stop, objectGrain]
    omega
  · intro other mem live
    rw [walk.agrees other (by simp [mem]) live]
    simp [Compaction.landing, dead]

theorem live (tiled : Tiles memory stop ptr (tile :: rest)) (live : gc.live tile = true) :
    gc.Walk tiles rest tile.stop (gc.destinationOf tile.address newAddr +
        movedSize tile (gc.destinationOf tile.address newAddr)) := by
  obtain ⟨atStart, -, valid, later⟩ := tiled
  subst atStart
  obtain ⟨above, below, grain⟩ := destinationOf_bounds gc walk.high walk.grain
  obtain ⟨fits, leftGrain, -⟩ := movedSize_fits valid below grain
  refine ⟨?_, fits, leftGrain, ?_⟩
  · have low := walk.low
    omega
  · intro other mem otherLive
    have behind := (later.bounds mem).1
    have positive := valid.positive
    have ne : other.address ≠ tile.address := by
      rw [Tile.stop] at behind
      omega
    rw [walk.agrees other (by simp [mem]) otherLive]
    simp [Compaction.landing, live, ne]

end

end Walk

/-! ## The words of one object -/

variable {memory : Memory} {reference : ObjectList Nat}

theorem threadReferences_append (memory : Memory) (left right : List Nat) :
    gc.threadReferences memory (left ++ right) =
      gc.threadReferences (gc.threadReferences memory left) right := by
  rw [threadReferences, threadReferences, threadReferences, threadAll, threadAll, threadAll,
    List.foldl_append]

theorem threadReferences_single (notNull : memory ref ≠ 0) :
    gc.threadReferences memory [ref] = gc.threadReference memory ref := by
  rw [threadReferences, threadAll, List.foldl_cons, List.foldl_nil, if_neg notNull, threadReference]

def clearWords (memory : Memory) (cells : List Nat) : Memory :=
  cells.foldl (fun memory cell => Function.update memory cell 0) memory

attribute [local simp] clearWords

theorem threadReferent_eq (ob : Nat) (kind : ReferenceKind) :
    (gc.threadReferent memory reference ob kind).1 = gc.threadReferences
        (clearWords memory (gc.clearedReferent memory ob kind))
        (gc.threadedReferent memory ob kind) := by
  by_cases null : memory (ob + gc.referentOffset) = 0
  · simp [threadReferent, clearedReferent, null, threadReferences, threadAll]
  · by_cases keeps : keepsReferent kind (gc.marks (memory (ob + gc.referentOffset))) = true
    · simp [threadReferent, clearedReferent, null, keeps, threadReferences_single null]
    · by_cases phantom : kind = .phantom
      · subst phantom
        simp [threadReferent, clearedReferent, null, keeps, threadReferences_single null]
      · simp [threadReferent, clearedReferent, null, keeps, phantom, threadReferences, threadAll]

theorem threadSpecial_eq (ob : Nat) (cb : ClassBlock) (notArray : cb.hasArrayName = false) :
    (gc.threadSpecial memory reference ob cb).1 =
      gc.threadReferences (clearWords memory (gc.clearedContents memory ob cb))
        (gc.specialSlots memory ob cb) := by
  rw [threadSpecial, clearedContents, specialSlots, referenceKind]
  cases isClass : cb.flags.classClass with
  | true => simp [ClassBlock.isSpecial, isClass]
  | false =>
    cases isLoader : cb.flags.classLoader with
    | true => simp [ClassBlock.isSpecial, isLoader]
    | false =>
      cases isReference : cb.flags.reference with
      | some => simp [ClassBlock.isSpecial, isReference, notArray, threadReferent_eq]
      | none => simp [threadReferences, threadAll]

theorem threadContents_eq (ob : Nat) (cb : ClassBlock) :
    (gc.threadContents memory reference ob cb).1 =
      gc.threadReferences (clearWords memory (gc.clearedContents memory ob cb))
        (gc.contentSlots memory ob cb) := by
  rw [threadContents, contentSlots]
  cases isArray : cb.hasArrayName with
  | true =>
    have none : gc.clearedContents memory ob cb = [] := by
      simp [clearedContents, referenceKind, isArray]
    cases elements : cb.hasReferenceElements with
    | true => simp [none]
    | false => simp [none, threadReferences, threadAll]
  | false =>
    simp only [Bool.false_eq_true, ↓reduceIte]
    rw [threadReferences_append, ← threadSpecial_eq ob cb isArray]

theorem threadContents_reference (memory : Memory) (reference : ObjectList Nat) (ob : Nat)
    (cb : ClassBlock) :
    (gc.threadContents memory reference ob cb).2 = reference ∨
      (gc.threadContents memory reference ob cb).2 = reference.addToObjectList ob := by
  have referent : ∀ kind, (gc.threadReferent memory reference ob kind).2 = reference ∨
      (gc.threadReferent memory reference ob kind).2 = reference.addToObjectList ob := by
    intro kind
    simp only [threadReferent]
    repeat' split
    all_goals simp
  simp only [threadContents, threadSpecial]
  repeat' split
  all_goals first | exact .inl rfl | exact referent _

variable (gc) in
theorem threadChildren_reference (memory : Memory) (reference : ObjectList Nat) (ob : Nat) :
    (gc.threadChildren memory reference ob).2 = reference ∨
      (gc.threadChildren memory reference ob).2 = reference.addToObjectList ob := by
  rw [threadChildren]
  split
  · exact .inl rfl
  · exact threadContents_reference memory reference ob _

/-! ## What threading an object depends on -/

variable {tile : Tile} {current : Memory}

theorem Fits.same_class (fits : gc.Fits memory tile)
    (same : ∀ cell, gc.object tile ≤ cell → cell < tile.stop → current cell = memory cell) :
    current (gc.classSlot (gc.object tile)) = memory (gc.classSlot (gc.object tile)) := by
  have minimum := fits.minimum
  apply same
  · exact Nat.le_add_right _ _
  · rcases gc.platform.isWord with word | word <;>
      simp only [Platform.minObjectSize, Platform.objectSize, Platform.headerSize, objectGrain,
        word, classSlot, object, headerSize, Tile.stop] at minimum ⊢ <;> omega

theorem Fits.same_contents (fits : gc.Fits memory tile)
    (same : ∀ cell, gc.object tile ≤ cell → cell < tile.stop → current cell = memory cell)
    (isClass : cb = gc.classBlock (memory (gc.classSlot (gc.object tile)))) :
    gc.contentSlots current (gc.object tile) cb = gc.contentSlots memory (gc.object tile) cb ∧
      gc.clearedContents current (gc.object tile) cb =
        gc.clearedContents memory (gc.object tile) cb := by
  have atReferent : ∀ kind, referenceKind cb = some kind →
      current (gc.object tile + gc.referentOffset) =
        memory (gc.object tile + gc.referentOffset) := by
    intro kind isReference
    have room := (fits.referent (by simp [← isClass, isReference])).1
    apply same
    · exact Nat.le_add_right _ _
    · rw [object, Tile.stop]
      omega
  have atLength : cb.hasArrayName = true → current (gc.object tile + gc.platform.objectSize) =
        memory (gc.object tile + gc.platform.objectSize) := by
    intro isArray
    have room := fits.length (isClass ▸ isArray)
    apply same
    · exact Nat.le_add_right _ _
    · rw [object, Tile.stop]
      omega
  constructor
  · rw [contentSlots, contentSlots]
    cases isArray : cb.hasArrayName with
    | true => simp [elementSlots, atLength isArray]
    | false =>
      cases isClass : cb.flags.classClass with
      | true => simp [specialSlots, isClass]
      | false =>
        cases isLoader : cb.flags.classLoader with
        | true => simp [specialSlots, isClass, isLoader]
        | false =>
          cases isReference : cb.flags.reference with
          | none => simp [specialSlots, isReference]
          | some kind =>
            have found : referenceKind cb = some kind := by
              simp [referenceKind, isArray, isClass, isLoader, isReference]
            simp [specialSlots, isReference, atReferent kind found]
  · rw [clearedContents, clearedContents]
    cases found : referenceKind cb with
    | none => rfl
    | some kind => simp only [clearedReferent, atReferent kind found]

/-! ## Threading an object -/

variable {tiles : List Tile}

variable (gc) in
def headers (tiles : List Tile) : Set Nat :=
  {addr | ∃ tile ∈ tiles, gc.live tile = true ∧ tile.address = addr}

variable (gc) in
def newObject (tiles : List Tile) (header : Nat) : Nat :=
  gc.landing tiles gc.base header + gc.headerSize

variable (gc) in
abbrev PartlyThreaded (memory : Memory) (tiles : List Tile) (domain : Set Nat)
    (pending : Nat → List Nat) (settled : Set Nat) (current : Memory) : Prop :=
  Threaded memory (gc.relocatedWord memory tiles (gc.relocation tiles))
    (gc.newObject tiles) (gc.headers tiles) domain pending settled current

variable {pre rest : List Tile}

theorem clearWords_threaded
    (threaded : Threaded origin final place blockHeaders domain pending settled current)
    (nodup : cells.Nodup) (fresh : ∀ cell ∈ cells, Fresh blockHeaders pending settled cell)
    (null : ∀ cell ∈ cells, final cell = 0) :
    Threaded origin final place blockHeaders domain pending (settled ∪ {cell | cell ∈ cells})
      (clearWords current cells) := by
  induction cells generalizing current settled with
  | nil => simpa using threaded
  | cons cell rest ih =>
    obtain ⟨notLater, restNodup⟩ := List.nodup_cons.mp nodup
    have first := threaded.settle (fresh cell (by simp))
    rw [null cell (by simp)] at first
    have later := ih first restNodup (fun other mem =>
        have old := fresh other (by simp [mem])
        ⟨old.not_header, fun inserted => inserted.elim
          (fun same => notLater (same ▸ mem)) old.not_settled, old.not_pending⟩)
      (fun other mem => null other (by simp [mem]))
    have same : insert cell settled ∪ {other | other ∈ rest} =
        settled ∪ {other | other ∈ cell :: rest} := by
      ext other
      simp only [Set.mem_union, Set.mem_insert_iff, Set.mem_ofPred_eq, mem_cons]
      tauto
    rw [same] at later
    exact later

theorem threadChildren_threaded (reference : ObjectList Nat)
    (threaded : gc.PartlyThreaded memory tiles domain pending settled current)
    (fits : gc.Fits memory tile)
    (same : ∀ cell, gc.object tile ≤ cell → cell < tile.stop → current cell = memory cell)
    (nodup : (gc.slotsOf memory (gc.object tile)).Nodup)
    (fresh : ∀ slot ∈ gc.slotsOf memory (gc.object tile),
      Fresh (gc.headers tiles) pending settled slot)
    (null : ∀ slot ∈ gc.clearedSlots memory (gc.object tile),
      gc.relocatedWord memory tiles (gc.relocation tiles) slot = 0)
    (ready : ∀ slot ∈ gc.threadedSlots memory (gc.object tile),
      Threaded.Ready memory (gc.relocatedWord memory tiles (gc.relocation tiles))
        (gc.newObject tiles) (fun ob => ob - gc.headerSize)
        (gc.headers tiles) domain slot) :
    ∃ next, gc.PartlyThreaded memory tiles domain next
        (settled ∪ {slot | slot ∈ gc.clearedSlots memory (gc.object tile)})
        (gc.threadChildren current reference (gc.object tile)).1 ∧
      ∀ header slot, slot ∈ next header ↔ slot ∈ pending header ∨
        slot ∈ gc.threadedSlots memory (gc.object tile) ∧
          memory slot ≠ 0 ∧ memory slot - gc.headerSize = header := by
  have atClass := fits.same_class same
  rw [threadChildren, atClass]
  by_cases noClass : memory (gc.classSlot (gc.object tile)) = 0
  · refine ⟨pending, ?_, fun header slot => ?_⟩
    · simpa [noClass, clearedSlots] using threaded
    · simp [threadedSlots, noClass]
  · obtain ⟨sameContents, sameCleared⟩ := fits.same_contents same rfl
    have cleared : gc.clearedSlots memory (gc.object tile) =
        gc.clearedContents memory (gc.object tile) (gc.classBlock
          (memory (gc.classSlot (gc.object tile)))) := by
      rw [clearedSlots, if_neg noClass]
    have slots : gc.threadedSlots memory (gc.object tile) =
        gc.contentSlots memory (gc.object tile) (gc.classBlock
          (memory (gc.classSlot (gc.object tile)))) ++
          [gc.classSlot (gc.object tile)] := by
      rw [threadedSlots, if_neg noClass]
    rw [slotsOf, slots, cleared] at nodup fresh
    rw [slots] at ready
    rw [cleared] at null
    rw [if_neg noClass, slots, cleared]
    generalize gc.classBlock (memory (gc.classSlot (gc.object tile))) = cb at *
    dsimp only
    rw [threadContents_eq, sameContents, sameCleared]
    generalize gc.contentSlots memory (gc.object tile) cb = contents at *
    generalize gc.clearedContents memory (gc.object tile) cb = cells at *
    obtain ⟨cellsNodup, slotsNodup, cellsApart⟩ := nodup_append.mp nodup
    obtain ⟨contentsNodup, -, classApart⟩ := nodup_append.mp slotsNodup
    have notCleared : ∀ slot ∈ contents ++ [gc.classSlot (gc.object tile)],
        slot ∉ cells := fun slot mem inCells => cellsApart slot inCells slot mem rfl
    have first := clearWords_threaded threaded cellsNodup
      (fun cell mem => fresh cell (by simp [mem])) null
    have freshFirst : ∀ slot ∈ contents ++ [gc.classSlot (gc.object tile)],
        Fresh (gc.headers tiles) pending (settled ∪ {cell | cell ∈ cells}) slot := by
      intro slot mem
      have old := fresh slot (List.mem_append_right _ mem)
      exact { old with
        not_settled := fun either => either.elim old.not_settled (notCleared slot mem) }
    obtain ⟨next, second, members⟩ := first.threadAll contentsNodup
      (fun slot mem => freshFirst slot (mem_append_left _ mem))
      (fun slot mem => ready slot (mem_append_left _ mem))
    have classFresh := freshFirst (gc.classSlot (gc.object tile)) (by simp)
    have classReady := ready (gc.classSlot (gc.object tile)) (by simp)
    have classFreshNow : Fresh (gc.headers tiles) next (settled ∪ {cell | cell ∈ cells})
        (gc.classSlot (gc.object tile)) :=
      { classFresh with
        not_pending := fun header isHeader mem =>
          ((members header _).mp mem).elim (classFresh.not_pending header isHeader)
            fun isContent => classApart _ isContent.1 _ (by simp) rfl }
    have classNow : gc.threadReferences (clearWords current cells) contents
        (gc.classSlot (gc.object tile)) = memory (gc.classSlot (gc.object tile)) :=
      second.at_fresh classFreshNow classReady.inside
    rw [← threadReferences_single (classNow ▸ noClass), ← threadReferences_append]
    exact first.threadAll slotsNodup freshFirst ready

/-! ## Slots of a well-formed heap -/

theorem mem_allSlots : slot ∈ gc.allSlots memory tiles ↔
    slot ∈ gc.rootSlots ∨ ∃ tile ∈ tiles, gc.live tile = true ∧
      slot ∈ gc.slotsOf memory (gc.object tile) := by
  simp [allSlots, and_assoc]

theorem mem_threadedWords : slot ∈ gc.threadedWords memory tiles ↔
    slot ∈ gc.rootSlots ∨ ∃ tile ∈ tiles, gc.live tile = true ∧
      slot ∈ gc.threadedSlots memory (gc.object tile) := by
  simp [threadedWords, and_assoc]

theorem mem_clearedWords : slot ∈ gc.clearedWords memory tiles ↔
    ∃ tile ∈ tiles, gc.live tile = true ∧ slot ∈ gc.clearedSlots memory (gc.object tile) := by
  simp [clearedWords, and_assoc]

theorem allSlots_live (live : gc.live tile = true) :
    gc.allSlots memory (pre ++ tile :: rest) = gc.allSlots memory pre ++
        (gc.slotsOf memory (gc.object tile) ++ (rest.filter gc.live).flatMap fun other =>
            gc.slotsOf memory (gc.object other)) := by
  simp [allSlots, live]

theorem dead_not_header (tiled : Tiles memory high low tiles) (isTile : tile ∈ tiles)
    (dead : gc.live tile = false) : tile.address ∉ gc.headers tiles := by
  rintro ⟨other, isOther, live, same⟩
  rw [tiled.eq_of_address isOther isTile same, dead] at live
  exact absurd live (by decide)

namespace WellFormed

variable (wf : gc.WellFormed memory reference tiles)
include wf

section
variable (mem : slot ∈ gc.allSlots memory tiles)
include mem

theorem slot_place : gc.Outside slot ∨ ∃ tile ∈ tiles, gc.live tile = true ∧
      slot ∈ gc.slotsOf memory (gc.object tile) ∧
      gc.object tile ≤ slot ∧ slot < tile.stop := by
  rcases mem_allSlots.mp mem with isRoot | ⟨tile, isTile, live, inTile⟩
  · exact .inl (wf.roots slot isRoot)
  · rcases wf.inside tile isTile live slot inTile with inBlock | outside
    · exact .inr ⟨tile, isTile, live, inTile, inBlock⟩
    · exact .inl outside

theorem slot_ne_address (isTile : tile ∈ tiles) : slot ≠ tile.address := by
  have bounds := wf.tiled.bounds isTile
  have positive := (wf.tiled.valid isTile).positive
  rw [Tile.stop] at bounds
  rcases wf.slot_place mem with outside | ⟨other, isOther, -, -, low, high⟩
  · rcases outside with below | above <;> omega
  · rcases wf.tiled.apart isTile isOther with rfl | behind | pre
    · have word := gc.platform.isWord
      rw [object, headerSize, Platform.headerSize] at low
      omega
    · rw [Tile.stop] at behind
      rw [object] at low
      omega
    · omega

theorem slot_not_header : slot ∉ gc.headers tiles := by
  rintro ⟨tile, isTile, -, same⟩
  exact wf.slot_ne_address mem isTile same.symm

end

theorem slot_owner (mem : slot ∈ gc.allSlots memory tiles)
    (isTile : tile ∈ tiles) (low : tile.address ≤ slot) (high : slot < tile.stop) :
    gc.live tile = true ∧ slot ∈ gc.slotsOf memory (gc.object tile) := by
  have bounds := wf.tiled.bounds isTile
  rcases wf.slot_place mem with outside | ⟨other, isOther, live, inOther, atLow, atHigh⟩
  · rcases outside with below | above <;> omega
  · rw [object] at atLow
    rcases wf.tiled.apart isTile isOther with rfl | behind | pre
    · exact ⟨live, inOther⟩
    · omega
    · omega

theorem ready (mem : slot ∈ gc.threadedWords memory tiles) (inside : slot ∈ domain) :
    Threaded.Ready memory (gc.relocatedWord memory tiles (gc.relocation tiles))
      (gc.newObject tiles) (fun ob => ob - gc.headerSize)
      (gc.headers tiles) domain slot where
  inside := inside
  aligned := wf.aligned slot mem
  isHeader notNull := by
    rcases wf.references slot mem with null | ⟨tile, isTile, live, same⟩
    · exact absurd null notNull
    · exact ⟨tile, isTile, live, by simp [same, object]⟩
  placed notNull := by rw [relocatedWord, if_pos mem, if_neg notNull, relocation, newObject]

omit wf in
theorem mem_slotsOf : slot ∈ gc.slotsOf memory ob ↔
    slot ∈ gc.clearedSlots memory ob ∨ slot ∈ gc.threadedSlots memory ob := by
  rw [slotsOf, mem_append]

theorem slots_nodup (isTile : tile ∈ tiles) (live : gc.live tile = true) :
    (gc.slotsOf memory (gc.object tile)).Nodup := by
  obtain ⟨pre, rest, rfl⟩ := List.append_of_mem isTile
  have distinct := wf.distinct
  rw [allSlots_live live] at distinct
  exact (distinct.of_append_right).of_append_left

theorem slot_unique (isTile : tile ∈ tiles) (live : gc.live tile = true)
    (mem : slot ∈ gc.slotsOf memory (gc.object tile)) :
    slot ∉ gc.rootSlots ∧ ∀ other ∈ tiles, gc.live other = true →
      slot ∈ gc.slotsOf memory (gc.object other) → other = tile := by
  obtain ⟨pre, rest, rfl⟩ := List.append_of_mem isTile
  have distinct := wf.distinct
  rw [allSlots_live live] at distinct
  obtain ⟨-, later, apart⟩ := nodup_append.mp distinct
  obtain ⟨-, -, laterApart⟩ := nodup_append.mp later
  have notEarlier : slot ∉ gc.allSlots memory pre := fun earlier =>
    apart slot earlier slot (mem_append_left _ mem) rfl
  refine ⟨fun isRoot => notEarlier (mem_allSlots.mpr (.inl isRoot)), ?_⟩
  intro other isOther otherLive inOther
  rcases mem_append.mp isOther with isEarlier | isLater
  · exact absurd (mem_allSlots.mpr (.inr ⟨other, isEarlier, otherLive, inOther⟩)) notEarlier
  · rcases mem_cons.mp isLater with same | isRest
    · exact same
    · have inRest : slot ∈ (rest.filter gc.live).flatMap fun other =>
          gc.slotsOf memory (gc.object other) := by
        simp only [List.mem_flatMap, List.mem_filter]
        exact ⟨other, ⟨isRest, otherLive⟩, inOther⟩
      exact absurd rfl (laterApart slot mem slot inRest)

theorem cleared_not_threaded (mem : slot ∈ gc.clearedWords memory tiles) :
    slot ∉ gc.threadedWords memory tiles := by
  obtain ⟨tile, isTile, live, inTile⟩ := mem_clearedWords.mp mem
  obtain ⟨notRoot, unique⟩ := wf.slot_unique isTile live (mem_slotsOf.mpr (.inl inTile))
  intro threaded
  rcases mem_threadedWords.mp threaded with isRoot | ⟨other, isOther, otherLive, inOther⟩
  · exact notRoot isRoot
  · have same := unique other isOther otherLive (mem_slotsOf.mpr (.inr inOther))
    subst same
    have nodup := wf.slots_nodup isTile live
    exact (nodup_append.mp nodup).2.2 slot inTile slot inOther rfl

theorem cleared_null (mem : slot ∈ gc.clearedWords memory tiles) :
    gc.relocatedWord memory tiles (gc.relocation tiles) slot = 0 := by
  rw [relocatedWord, if_neg (wf.cleared_not_threaded mem), if_pos mem]

end WellFormed

/-! ## One step -/

theorem visit (word : Nat)
    (threaded : Threaded origin final place blockHeaders domain pending settled current)
    (isHeader : header ∈ blockHeaders) (enough : (pending header).length ≤ gc.links) :
    gc.unthreadHeader current header word header = origin header ∧
      (hdrThreaded (current header) = true ∨ current header = origin header ∧
          gc.unthreadHeader current header word = current) := by
  have chain := threaded.chain header isHeader
  have res := unthread_eq word chain (threaded.nodup header isHeader)
    (threaded.aligned header isHeader) (threaded.plain header isHeader) enough
  rw [unthreadHeader]
  refine ⟨by rw [res, Function.update_self], ?_⟩
  cases slots : pending header with
  | nil =>
    rw [slots] at chain res
    have same : current header = origin header := chain
    refine .inr ⟨same, ?_⟩
    rw [res, ← same]
    simp
  | cons slot =>
    rw [slots] at chain
    have isLink := isLink_link (threaded.aligned header isHeader slot (by simp [slots]))
    rw [← chain.1] at isLink
    exact .inl isLink

theorem live_iff : gc.live tile = true ↔
    hdrAlloced tile.header = true ∧ gc.marks (gc.object tile) ≠ 0 := by
  simp [live]

theorem live_size (live : gc.live tile = true) : hdrSize tile.header = tile.size := by
  rw [Tile.size, blockSize, if_pos (live_iff.mp live).1]

theorem firstPassStep_live {pass : FirstPass} (live : gc.live tile = true)
    (atTile : tile.address = pass.ptr)
    (isWord : word = gc.destinationOf pass.ptr pass.newAddr + gc.headerSize)
    (restored : gc.unthreadHeader pass.memory pass.ptr word pass.ptr = tile.header)
    (visited : hdrThreaded (pass.memory pass.ptr) = true ∨ pass.memory pass.ptr = tile.header ∧
        gc.unthreadHeader pass.memory pass.ptr word = pass.memory) :
    gc.firstPassStep pass = gc.markedPhase1 { pass with
        memory := gc.unthreadHeader pass.memory pass.ptr word
        newAddr := gc.destinationOf pass.ptr pass.newAddr } tile.header := by
  obtain ⟨alloced, marked⟩ := live_iff.mp live
  rw [object, atTile] at marked
  subst isWord
  rcases visited with isThreaded | ⟨same, unchanged⟩
  · simp only [firstPassStep, isThreaded, ↓reduceIte, restored]
  · simp only [firstPassStep, same, hdrThreaded_of_alloced alloced, alloced, unchanged,
      Bool.false_eq_true, ↓reduceIte, marked, ne_eq, not_false_eq_true]

theorem unmarked_of_dead (dead : gc.live tile = false) (atTile : tile.address = ptr)
    (alloced : hdrAlloced tile.header = true) : gc.marks (ptr + gc.headerSize) = 0 := by
  simpa [live, object, alloced, atTile] using dead

theorem firstPassStep_dead {pass : FirstPass} (dead : gc.live tile = false) (valid : tile.Valid)
    (atTile : tile.address = pass.ptr) (same : pass.memory pass.ptr = tile.header) :
    gc.firstPassStep pass = { pass with ptr := tile.stop } := by
  have unmarked := unmarked_of_dead dead atTile
  rw [Tile.stop, Tile.size, blockSize, atTile]
  cases alloced : hdrAlloced tile.header with
  | true => simp [firstPassStep, same, valid.unthreaded, alloced, unmarked alloced]
  | false => simp [firstPassStep, same, valid.unthreaded, alloced]

/-! ## The invariant -/

variable (gc) in
theorem walk_along {Pass : Type} (ptr : Pass → Nat) {body : Pass → Pass}
    (holds : List Tile → List Tile → Pass → Prop)
    (tiled : ∀ {pre suffix pass}, holds pre suffix pass → Tiles memory gc.limit (ptr pass) suffix)
    (step : ∀ pre tile rest pass, holds pre (tile :: rest) pass →
      holds (pre ++ [tile]) rest (body pass))
    {first : Pass} (atBase : ptr first = gc.base) (initially : holds [] tiles first) :
    holds tiles [] (whileLoop (fun pass => decide (ptr pass < gc.limit)) body
      (gc.limit - gc.base) first) := by
  refine whileLoop_along _ body holds (fun pre tile rest pass inv => ⟨?_, step _ _ _ _ inv⟩)
    (fun pre pass inv => ?_) [] tiles _ ?_ first initially
  · obtain ⟨atTile, -, valid, later⟩ := tiled inv
    have bound := later.start_le
    have positive := valid.positive
    rw [Tile.stop] at bound
    rw [decide_eq_true_eq]
    omega
  · have atEnd : ptr pass = gc.limit := tiled inv
    simp [atEnd]
  · have bound := (tiled initially).length_le
    omega

variable (gc) in
/-- The blocks of `before` have been walked. A slot that is still threaded onto a
walked block is outside the heap or further up. -/
structure FirstInvariant (memory : Memory) (tiles pre suffix : List Tile)
    (pending : Nat → List Nat) (settled : Set Nat) (pass : FirstPass) : Prop where
  split : tiles = pre ++ suffix
  tiled : Tiles memory gc.limit pass.ptr suffix
  walk : gc.Walk tiles suffix pass.ptr pass.newAddr
  threaded : gc.PartlyThreaded memory tiles Set.univ pending settled pass.memory
  settled_known : ∀ slot ∈ settled, slot ∈ gc.allSlots memory pre
  pending_known : ∀ header ∈ gc.headers tiles, ∀ slot ∈ pending header,
    slot ∈ gc.threadedWords memory pre
  complete : ∀ slot ∈ gc.threadedWords memory pre, memory slot ≠ 0 →
    slot ∈ settled ∨ ∃ header ∈ gc.headers tiles, slot ∈ pending header
  cleared : ∀ slot ∈ gc.clearedWords memory pre, slot ∈ settled
  position : ∀ tile ∈ pre, gc.live tile = true → ∀ slot ∈ pending tile.address,
    slot < gc.base ∨ tile.address < slot
  inRange : pass.reference.InRange
  queued : ∀ ob, some ob ∈ pass.reference.iterateObjectList → gc.IsLive tiles ob

theorem threadedWords_subset : gc.threadedWords memory tiles ⊆ gc.allSlots memory tiles := by
  intro slot mem
  rcases mem_threadedWords.mp mem with isRoot | ⟨tile, isTile, live, inTile⟩
  · exact mem_allSlots.mpr (.inl isRoot)
  · exact mem_allSlots.mpr (.inr ⟨tile, isTile, live, WellFormed.mem_slotsOf.mpr (.inr inTile)⟩)

theorem allSlots_mono : gc.allSlots memory pre ⊆ gc.allSlots memory (pre ++ rest) := by
  intro slot mem
  rcases mem_allSlots.mp mem with isRoot | ⟨tile, isTile, live, inTile⟩
  · exact mem_allSlots.mpr (.inl isRoot)
  · exact mem_allSlots.mpr (.inr ⟨tile, mem_append_left _ isTile, live, inTile⟩)

theorem threadedWords_mono :
    gc.threadedWords memory pre ⊆ gc.threadedWords memory (pre ++ rest) := by
  intro slot mem
  rcases mem_threadedWords.mp mem with isRoot | ⟨tile, isTile, live, inTile⟩
  · exact mem_threadedWords.mpr (.inl isRoot)
  · exact mem_threadedWords.mpr (.inr ⟨tile, mem_append_left _ isTile, live, inTile⟩)

namespace FirstInvariant

variable {pre rest : List Tile} {pass : FirstPass}

section
variable (wf : gc.WellFormed memory reference tiles)
include wf

theorem enough (inv : gc.FirstInvariant memory tiles pre rest pending settled pass)
    (isHeader : header ∈ gc.headers tiles) :
    (pending header).length ≤ gc.links := by
  have subset : pending header ⊆ gc.threadedWords memory tiles := by
    intro slot mem
    rw [inv.split]
    exact threadedWords_mono (inv.pending_known header isHeader slot mem)
  have bound := (List.subperm_of_subset (inv.threaded.nodup header isHeader) subset).length_le
  have total := wf.enough
  omega

theorem not_earlier (inv : gc.FirstInvariant memory tiles pre (tile :: rest) pending settled pass)
    (live : gc.live tile = true) (mem : slot ∈ gc.slotsOf memory (gc.object tile)) :
    slot ∉ gc.allSlots memory pre := by
  intro earlier
  have distinct := wf.distinct
  rw [inv.split, allSlots_live live] at distinct
  exact (nodup_append.mp distinct).2.2 slot earlier slot (mem_append_left _ mem) rfl

omit wf in
theorem unvisited (inv : gc.FirstInvariant memory tiles pre rest pending settled pass)
    (notEarlier : cell ∉ gc.allSlots memory pre) (notHeader : cell ∉ gc.headers tiles) :
    Fresh (gc.headers tiles) pending settled cell where
  not_header := notHeader
  not_settled isSettled := notEarlier (inv.settled_known cell isSettled)
  not_pending header isHeader mem :=
    notEarlier (threadedWords_subset (inv.pending_known header isHeader cell mem))

theorem same (inv : gc.FirstInvariant memory tiles pre (tile :: rest) pending settled pass)
    (low : tile.address ≤ cell) (high : cell < tile.stop)
    (notHeader : cell ∉ gc.headers tiles) : pass.memory cell = memory cell := by
  refine inv.threaded.at_fresh (inv.unvisited (fun earlier => ?_) notHeader) (Set.mem_univ cell)
  have mem : cell ∈ gc.allSlots memory tiles := by
    rw [inv.split]
    exact allSlots_mono earlier
  obtain ⟨live, inTile⟩ := wf.slot_owner mem (by simp [inv.split]) low high
  exact inv.not_earlier wf live inTile earlier

theorem dead (inv : gc.FirstInvariant memory tiles pre (tile :: rest) pending settled pass)
    (dead : gc.live tile = false) :
    gc.FirstInvariant memory tiles (pre ++ [tile]) rest pending settled
      (gc.firstPassStep pass) := by
  have isTile : tile ∈ tiles := by simp [inv.split]
  have tiled := inv.tiled
  obtain ⟨atTile, header, valid, later⟩ := tiled
  have same : pass.memory pass.ptr = tile.header := by
    rw [← header, ← atTile]
    apply inv.same wf le_rfl
    · rw [Tile.stop]
      have positive := valid.positive
      omega
    · exact dead_not_header wf.tiled isTile dead
  have sameSlots : ∀ function : Tile → List Nat, ((pre ++ [tile]).filter gc.live).flatMap function =
        (pre.filter gc.live).flatMap function := by
    intro function
    simp [dead]
  rw [firstPassStep_dead dead valid atTile same]
  exact
    { split := by simp [inv.split]
      tiled := later
      walk := inv.walk.dead inv.tiled dead
      __ := inv
      settled_known := by
        rw [allSlots, sameSlots]
        exact inv.settled_known
      pending_known := by
        rw [threadedWords, sameSlots]
        exact inv.pending_known
      complete := by
        rw [threadedWords, sameSlots]
        exact inv.complete
      cleared := by
        rw [clearedWords, sameSlots]
        exact inv.cleared
      position := by
        intro other mem live
        rcases mem_append.mp mem with earlier | here
        · exact inv.position other earlier live
        · rw [mem_singleton.mp here, dead] at live
          exact absurd live (by decide) }

end

theorem threadedWords_live (live : gc.live tile = true) :
    slot ∈ gc.threadedWords memory (pre ++ [tile]) ↔ slot ∈ gc.threadedWords memory pre ∨
        slot ∈ gc.threadedSlots memory (gc.object tile) := by
  simp [threadedWords, live, or_assoc]

theorem clearedWords_live (live : gc.live tile = true) :
    slot ∈ gc.clearedWords memory (pre ++ [tile]) ↔ slot ∈ gc.clearedWords memory pre ∨
        slot ∈ gc.clearedSlots memory (gc.object tile) := by
  simp [clearedWords, live]

section
variable (wf : gc.WellFormed memory reference tiles)
include wf

theorem unthread (inv : gc.FirstInvariant memory tiles pre rest pending settled pass)
    (isHeader : header ∈ gc.headers tiles) :
    gc.FirstInvariant memory tiles pre rest (Function.update pending header [])
      (settled ∪ {slot | slot ∈ pending header})
      { pass with
        memory := gc.unthreadHeader pass.memory header (gc.newObject tiles header) } := by
  have members : ∀ other slot, slot ∈ Function.update pending header [] other →
      slot ∈ pending other := by
    intro other slot mem
    by_cases same : other = header
    · simp [same] at mem
    · rwa [Function.update_of_ne same] at mem
  exact
    { __ := inv
      threaded := inv.threaded.unthread isHeader (inv.enough wf isHeader)
      settled_known := by
        rintro slot (isSettled | isPending)
        · exact inv.settled_known slot isSettled
        · exact threadedWords_subset (inv.pending_known header isHeader slot isPending)
      pending_known := fun other isOther slot mem =>
        inv.pending_known other isOther slot (members other slot mem)
      complete := by
        intro slot mem notNull
        rcases inv.complete slot mem notNull with isSettled | ⟨other, isOther, isPending⟩
        · exact .inl (.inl isSettled)
        · by_cases same : other = header
          · exact .inl (.inr (same ▸ isPending))
          · exact .inr ⟨other, isOther, by rwa [Function.update_of_ne same]⟩
      cleared := fun slot mem => .inl (inv.cleared slot mem)
      position := fun other isOther live slot mem =>
        inv.position other isOther live slot (members other.address slot mem) }

section
variable (inv : gc.FirstInvariant memory tiles pre (tile :: rest) pending settled pass)
include inv

theorem fresh (live : gc.live tile = true) (mem : slot ∈ gc.slotsOf memory (gc.object tile)) :
    Fresh (gc.headers tiles) pending settled slot := by
  have isTile : tile ∈ tiles := by simp [inv.split]
  exact inv.unvisited (inv.not_earlier wf live mem)
    (wf.slot_not_header (mem_allSlots.mpr (.inr ⟨tile, isTile, live, mem⟩)))

theorem threadChildren (live : gc.live tile = true) (empty : pending tile.address = [])
    (walk : gc.Walk tiles rest tile.stop newAddr) :
    ∃ next resolved, gc.FirstInvariant memory tiles (pre ++ [tile]) rest next resolved
      { memory := (gc.threadChildren pass.memory pass.reference (gc.object tile)).1
        reference := (gc.threadChildren pass.memory pass.reference (gc.object tile)).2
        ptr := tile.stop
        newAddr := newAddr } := by
  have isTile : tile ∈ tiles := by simp [inv.split]
  have sameWords : ∀ cell, gc.object tile ≤ cell → cell < tile.stop →
      pass.memory cell = memory cell := by
    intro cell low high
    apply inv.same wf ((Nat.le_add_right _ _).trans low) high
    rintro ⟨other, isOther, -, same⟩
    have positive := (wf.tiled.valid isOther).positive
    have word := gc.platform.isWord
    simp only [object, headerSize, Platform.headerSize] at low
    rcases wf.tiled.apart isTile isOther with rfl | behind | earlier
    · omega
    · omega
    · rw [Tile.stop] at earlier
      omega
  obtain ⟨next, threaded, members⟩ := threadChildren_threaded pass.reference
    inv.threaded (wf.fits tile isTile live) sameWords
    (wf.slots_nodup isTile live) (fun slot => inv.fresh wf live)
    (fun slot mem => wf.cleared_null (mem_clearedWords.mpr ⟨tile, isTile, live, mem⟩))
    (fun slot mem => wf.ready
      (mem_threadedWords.mpr (.inr ⟨tile, isTile, live, mem⟩)) (Set.mem_univ slot))
  have upward : ∀ slot ∈ gc.threadedSlots memory (gc.object tile),
      slot < gc.base ∨ tile.address < slot := by
    intro slot mem
    have bounds := wf.tiled.bounds isTile
    have positive := (wf.tiled.valid isTile).positive
    have word := gc.platform.isWord
    rcases wf.inside tile isTile live slot (WellFormed.mem_slotsOf.mpr (.inr mem)) with
      ⟨low, -⟩ | below | above
    · simp only [object, headerSize, Platform.headerSize] at low
      omega
    · exact .inl below
    · rw [Tile.stop] at bounds
      omega
  have queue : (gc.threadChildren pass.memory pass.reference (gc.object tile)).2.InRange ∧
      ∀ ob, some ob ∈ (gc.threadChildren pass.memory pass.reference
        (gc.object tile)).2.iterateObjectList → gc.IsLive tiles ob := by
    rcases threadChildren_reference gc pass.memory pass.reference (gc.object tile) with same | added
    · rw [same]
      exact ⟨inv.inRange, inv.queued⟩
    · rw [added]
      obtain ⟨inRange, queued⟩ := inv.inRange.addToObjectList (gc.object tile)
      refine ⟨inRange, fun ob mem => ?_⟩
      rcases queued _ mem with old | isNew
      · exact inv.queued ob old
      · exact ⟨tile, isTile, live, Option.some.inj isNew⟩
  refine ⟨next, settled ∪ {slot | slot ∈ gc.clearedSlots memory (gc.object tile)}, ?_⟩
  exact
    { split := by simp [inv.split]
      tiled := inv.tiled.2.2.2
      walk := walk
      threaded := threaded
      settled_known := by
        rintro slot (isSettled | isCleared)
        · exact allSlots_mono (inv.settled_known slot isSettled)
        · exact mem_allSlots.mpr
            (.inr ⟨tile, by simp, live, WellFormed.mem_slotsOf.mpr (.inl isCleared)⟩)
      pending_known := by
        intro header isHeader slot mem
        rw [threadedWords_live live]
        exact ((members header slot).mp mem).imp (inv.pending_known header isHeader slot) And.left
      complete := by
        intro slot mem notNull
        rcases (threadedWords_live live).mp mem with earlier | here
        · rcases inv.complete slot earlier notNull with
            isSettled | ⟨header, isHeader, isPending⟩
          · exact .inl (.inl isSettled)
          · exact .inr ⟨header, isHeader, (members header slot).mpr (.inl isPending)⟩
        · have isHeader := (wf.ready (mem_threadedWords.mpr
            (.inr ⟨tile, isTile, live, here⟩)) (Set.mem_univ slot)).isHeader notNull
          exact .inr ⟨_, isHeader, (members _ slot).mpr (.inr ⟨here, notNull, rfl⟩)⟩
      cleared := by
        intro slot mem
        exact ((clearedWords_live live).mp mem).imp (inv.cleared slot) id
      position := by
        intro other mem otherLive slot isPending
        rcases (members other.address slot).mp isPending with old | ⟨here, -, -⟩
        · rcases mem_append.mp mem with earlier | isSame
          · exact inv.position other earlier otherLive slot old
          · rw [mem_singleton.mp isSame, empty] at old
            simp at old
        · rcases upward slot here with below | above
          · exact .inl below
          · rcases mem_append.mp mem with earlier | isSame
            · have order := (inv.split ▸ wf.tiled).before_le earlier
              rw [Tile.stop] at order
              exact .inr (by omega)
            · exact .inr (mem_singleton.mp isSame ▸ above)
      inRange := queue.1
      queued := queue.2 }

theorem live (live : gc.live tile = true) :
    ∃ next resolved, gc.FirstInvariant memory tiles (pre ++ [tile]) rest next resolved
      (gc.firstPassStep pass) := by
  have isTile : tile ∈ tiles := by simp [inv.split]
  have tiled := inv.tiled
  obtain ⟨atTile, header, -, -⟩ := tiled
  have isHeader : tile.address ∈ gc.headers tiles := ⟨tile, isTile, live, rfl⟩
  have place : gc.newObject tiles tile.address =
      gc.destinationOf tile.address pass.newAddr + gc.headerSize := by
    rw [newObject, inv.walk.landing live]
  obtain ⟨restored, visited⟩ := visit (gc.newObject tiles tile.address)
    inv.threaded isHeader (inv.enough wf isHeader)
  have walk := inv.walk.live inv.tiled live
  have unthreaded := inv.unthread wf isHeader
  obtain ⟨next, resolved, res⟩ := unthreaded.threadChildren wf live (by simp) walk
  refine ⟨next, resolved, ?_⟩
  have word : gc.newObject tiles pass.ptr =
      gc.destinationOf pass.ptr pass.newAddr + gc.headerSize := atTile ▸ place
  rw [atTile] at restored visited
  rw [header] at restored visited
  rw [firstPassStep_live live atTile word restored visited]
  have target : (if gc.destinationOf pass.ptr pass.newAddr ≠ pass.ptr ∧
        hdrHashcodeTaken tile.header = true then
      gc.destinationOf pass.ptr pass.newAddr + objectGrain
    else
      gc.destinationOf pass.ptr pass.newAddr) + tile.size =
      gc.destinationOf pass.ptr pass.newAddr +
        movedSize tile (gc.destinationOf pass.ptr pass.newAddr) := by
    rw [movedSize, atTile]
    split <;> omega
  rw [markedPhase1, live_size live]
  dsimp only
  rw [target]
  rw [object, Tile.stop, atTile] at res
  exact res

end

theorem firstPass (initially : gc.FirstInvariant memory tiles [] tiles pending settled
      { memory := gc.threadReferences memory gc.rootSlots
        reference := reference
        ptr := gc.base
        newAddr := gc.base }) :
    ∃ next resolved, gc.FirstInvariant memory tiles tiles [] next resolved
      (gc.firstPass memory reference) := by
  refine gc.walk_along FirstPass.ptr (fun pre suffix pass => ∃ next resolved,
    gc.FirstInvariant memory tiles pre suffix next resolved pass)
    (fun ⟨_, _, inv⟩ => inv.tiled) ?_ rfl ⟨pending, settled, initially⟩
  rintro pre tile rest pass ⟨next, resolved, inv⟩
  cases isLive : gc.live tile with
  | true => exact inv.live wf isLive
  | false => exact ⟨next, resolved, inv.dead wf isLive⟩

end

end FirstInvariant

theorem WellFormed.firstInvariant (wf : gc.WellFormed memory reference tiles) :
    ∃ pending, gc.FirstInvariant memory tiles [] tiles pending ∅
      { memory := gc.threadReferences memory gc.rootSlots
        reference := reference
        ptr := gc.base
        newAddr := gc.base } := by
  have start : gc.PartlyThreaded memory tiles Set.univ (fun _ => []) ∅ memory := by
    apply Threaded.start
    · rintro header ⟨tile, isTile, -, rfl⟩
      rw [wf.tiled.header isTile]
      exact (wf.tiled.valid isTile).unthreaded
    · exact Set.subset_univ _
  have isWord : ∀ slot ∈ gc.rootSlots, slot ∈ gc.threadedWords memory tiles := fun slot mem =>
    mem_threadedWords.mpr (.inl mem)
  obtain ⟨pending, threaded, members⟩ := start.threadAll (wf.distinct.of_append_left)
    (fun slot mem =>
      { not_header := wf.slot_not_header (threadedWords_subset (isWord slot mem))
        not_settled := Set.notMem_empty slot
        not_pending := fun _ _ => List.not_mem_nil })
    (fun slot mem => wf.ready (isWord slot mem) (Set.mem_univ slot))
  refine ⟨pending, ?_⟩
  exact
    { split := rfl
      __ := wf
      walk := .start tiles
      threaded := threaded
      settled_known := fun slot isSettled => absurd isSettled (Set.notMem_empty slot)
      pending_known := by
        intro header isHeader slot mem
        rcases (members header slot).mp mem with none | ⟨isRoot, -, -⟩
        · simp at none
        · exact mem_threadedWords.mpr (.inl isRoot)
      complete := by
        intro slot mem notNull
        rcases mem_threadedWords.mp mem with isRoot | ⟨tile, none, -⟩
        · have isHeader := (wf.ready (isWord slot isRoot) (Set.mem_univ slot)).isHeader notNull
          exact .inr ⟨_, isHeader, (members _ slot).mpr (.inr ⟨isRoot, notNull, rfl⟩)⟩
        · simp at none
      cleared := by simp [clearedWords]
      position := by simp }

end JamVM.Alloc.Compaction
