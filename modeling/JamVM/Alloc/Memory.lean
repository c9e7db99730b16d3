import JamVM.Foundation.Threading
import JamVM.Alloc.Object

/-! # Blocks in memory

The heap as words of memory. Every block starts with a header word that holds
its size and, for an allocated block, flags in the bits that a size leaves free.
-/

namespace JamVM.Alloc

abbrev Memory := Nat → Nat

/-! ## Headers -/

/-- `HDR_SIZE`: the mask leaves the bits 3 to 29, on every platform. -/
def hdrSize (hdr : Nat) : Nat := hdr % 2 ^ 30 / 8 * 8

def hdrAlloced (hdr : Nat) : Bool := hdr % 2 == 1

def hdrThreaded (hdr : Nat) : Bool := Threading.isLink hdr

def hdrHashcodeTaken (hdr : Nat) : Bool := hdr / 2 ^ 30 % 2 == 1

def blockSize (hdr : Nat) : Nat := if hdrAlloced hdr then hdrSize hdr else hdr

theorem hdrThreaded_of_alloced (alloced : hdrAlloced hdr = true) : hdrThreaded hdr = false := by
  simp only [hdrAlloced, beq_iff_eq] at alloced
  simp only [hdrThreaded, Threading.isLink, beq_eq_false_iff_ne]
  omega

theorem hdrAlloced_of_grain (grain : objectGrain ∣ size) : hdrAlloced size = false := by
  simp only [objectGrain] at grain
  simp only [hdrAlloced, beq_eq_false_iff_ne]
  omega

/-! ## Tiled heaps -/

structure Tile where
  address : Nat
  header : Nat
  deriving DecidableEq

namespace Tile

def size (tile : Tile) : Nat := blockSize tile.header

def stop (tile : Tile) : Nat := tile.address + tile.size

structure Valid (tile : Tile) : Prop where
  grain : objectGrain ∣ tile.size
  positive : 0 < tile.size

instance (tile : Tile) : Decidable tile.Valid :=
  decidable_of_iff (objectGrain ∣ tile.size ∧ 0 < tile.size)
    ⟨fun both => ⟨both.1, both.2⟩, fun valid => ⟨valid.grain, valid.positive⟩⟩

theorem Valid.unthreaded {tile : Tile} (valid : tile.Valid) : hdrThreaded tile.header = false := by
  cases alloced : hdrAlloced tile.header with
  | true => exact hdrThreaded_of_alloced alloced
  | false =>
    have grain := valid.grain
    simp only [size, blockSize, alloced, objectGrain] at grain
    simp only [hdrThreaded, Threading.isLink, beq_eq_false_iff_ne]
    simp only [Bool.false_eq_true, ↓reduceIte] at grain
    omega

def free (start stop : Nat) : Tile where
  address := start
  header := stop - start

variable {start stop : Nat}

section
variable (grain : objectGrain ∣ stop - start)
include grain

theorem free_alloced : hdrAlloced (free start stop).header = false := hdrAlloced_of_grain grain

theorem free_size : (free start stop).size = stop - start := by
  rw [size, blockSize, free_alloced grain]
  rfl

theorem free_stop (below : start ≤ stop) : (free start stop).stop = stop := by
  rw [Tile.stop, free_size grain]
  exact Nat.add_sub_of_le below

theorem free_valid (below : start < stop) : (free start stop).Valid where
  grain := by rwa [free_size grain]
  positive := by
    rw [free_size grain]
    omega

end

end Tile

def Tiles (memory : Memory) (stop : Nat) : Nat → List Tile → Prop
  | start, [] => start = stop
  | start, tile :: rest =>
    tile.address = start ∧ memory start = tile.header ∧ tile.Valid ∧
      Tiles memory stop tile.stop rest

instance Tiles.decide (memory : Memory) (stop : Nat) :
    ∀ start tiles, Decidable (Tiles memory stop start tiles)
  | start, [] => inferInstanceAs (Decidable (start = stop))
  | _, tile :: rest =>
    have := Tiles.decide memory stop tile.stop rest
    inferInstanceAs (Decidable (_ ∧ _ ∧ _ ∧ _))

namespace Tiles

variable {memory : Memory} {start middle stop : Nat} {tiles left right : List Tile}

theorem congr (tiled : Tiles memory stop start tiles)
    (same : ∀ tile ∈ tiles, changed tile.address = memory tile.address) :
    Tiles changed stop start tiles := by
  induction tiles generalizing start with
  | nil => exact tiled
  | cons tile rest ih =>
    obtain ⟨atStart, header, valid, later⟩ := tiled
    refine ⟨atStart, ?_, valid, ih later fun other mem => same other (by simp [mem])⟩
    rw [← atStart, same tile (by simp), atStart, header]

theorem start_le (tiled : Tiles memory stop start tiles) : start ≤ stop := by
  induction tiles generalizing start with
  | nil => exact le_of_eq tiled
  | cons tile rest ih =>
    obtain ⟨atStart, -, -, later⟩ := tiled
    have bound := ih later
    rw [Tile.stop] at bound
    omega

theorem append (first : Tiles memory middle start left) (second : Tiles memory stop middle right) :
    Tiles memory stop start (left ++ right) := by
  induction left generalizing start with
  | nil =>
    have same : start = middle := first
    exact same ▸ second
  | cons tile rest ih =>
    obtain ⟨atStart, header, valid, later⟩ := first
    exact ⟨atStart, header, valid, ih later⟩

theorem split (tiled : Tiles memory stop start (left ++ right)) :
    ∃ middle, Tiles memory middle start left ∧ Tiles memory stop middle right := by
  induction left generalizing start with
  | nil => exact ⟨start, rfl, tiled⟩
  | cons tile rest ih =>
    obtain ⟨atStart, header, valid, later⟩ := tiled
    obtain ⟨middle, first, second⟩ := ih later
    exact ⟨middle, ⟨atStart, header, valid, first⟩, second⟩

variable {tile other : Tile}

theorem of_mem (tiled : Tiles memory stop start tiles) (mem : tile ∈ tiles) :
    memory tile.address = tile.header ∧ tile.Valid ∧ start ≤ tile.address ∧ tile.stop ≤ stop := by
  obtain ⟨left, right, rfl⟩ := List.append_of_mem mem
  obtain ⟨middle, first, rfl, header, valid, later⟩ := tiled.split
  exact ⟨header, valid, first.start_le, later.start_le⟩

theorem bounds (tiled : Tiles memory stop start tiles) (mem : tile ∈ tiles) :
    start ≤ tile.address ∧ tile.stop ≤ stop :=
  (tiled.of_mem mem).2.2

theorem before_le (tiled : Tiles memory stop start (left ++ tile :: right))
    (mem : other ∈ left) : other.stop ≤ tile.address := by
  obtain ⟨middle, first, second⟩ := tiled.split
  have bound := (first.bounds mem).2
  rw [second.1]
  exact bound

section
variable (tiled : Tiles memory stop start tiles)
include tiled

theorem header (mem : tile ∈ tiles) : memory tile.address = tile.header := (tiled.of_mem mem).1

theorem valid (mem : tile ∈ tiles) : tile.Valid := (tiled.of_mem mem).2.1

theorem length_le : start + tiles.length ≤ stop := by
  induction tiles generalizing start with
  | nil => exact le_of_eq tiled
  | cons tile rest ih =>
    obtain ⟨atStart, -, valid, later⟩ := tiled
    have bound := ih later
    have positive := valid.positive
    rw [Tile.stop] at bound
    rw [List.length_cons]
    omega

theorem grain : objectGrain ∣ stop - start := by
  induction tiles generalizing start with
  | nil =>
    have same : start = stop := tiled
    simp [same]
  | cons tile rest ih =>
    obtain ⟨atStart, -, valid, later⟩ := tiled
    have bound := later.start_le
    have divides := Nat.dvd_add (ih later) valid.grain
    have total : stop - tile.stop + tile.size = stop - start := by
      rw [Tile.stop] at bound ⊢
      omega
    rwa [total] at divides

theorem apart (mem : tile ∈ tiles) (otherMember : other ∈ tiles) :
    tile = other ∨ tile.stop ≤ other.address ∨ other.stop ≤ tile.address := by
  induction tiles generalizing start with
  | nil => simp at mem
  | cons first rest ih =>
    obtain ⟨-, -, -, later⟩ := tiled
    rcases List.mem_cons.mp mem with rfl | inRest
    · rcases List.mem_cons.mp otherMember with rfl | otherInRest
      · exact .inl rfl
      · exact .inr (.inl (later.bounds otherInRest).1)
    · rcases List.mem_cons.mp otherMember with rfl | otherInRest
      · exact .inr (.inr (later.bounds inRest).1)
      · exact ih later inRest otherInRest

theorem eq_of_address (mem : tile ∈ tiles) (otherMember : other ∈ tiles)
    (same : tile.address = other.address) : tile = other := by
  have positive := (tiled.valid mem).positive
  have otherPositive := (tiled.valid otherMember).positive
  rcases tiled.apart mem otherMember with equal | behind | pre
  · exact equal
  · rw [Tile.stop] at behind
    omega
  · rw [Tile.stop] at pre
    omega

end

theorem not_empty (first : Tiles memory middle start left) (below : middle < stop)
    (empty : blockSize (memory middle) = 0) : ¬ Tiles memory stop start tiles := by
  intro whole
  induction left generalizing start tiles with
  | nil =>
    cases first
    cases tiles with
    | nil => exact below.ne whole
    | cons tile rest =>
      obtain ⟨-, header, valid, -⟩ := whole
      rw [header] at empty
      exact valid.positive.ne' empty
  | cons tile rest ih =>
    have bound := first.start_le
    obtain ⟨atStart, header, -, later⟩ := first
    cases tiles with
    | nil =>
      have same : start = stop := whole
      omega
    | cons other others =>
      obtain ⟨atStart', header', -, later'⟩ := whole
      have same : tile = other := by
        cases tile
        cases other
        simp only at atStart atStart' header header'
        rw [atStart, atStart', ← header, ← header']
      exact ih later (same ▸ later')

end Tiles

end JamVM.Alloc
