import Mathlib.Order.Lattice

/-! # Memory for the lists of the collector

Blocks that are mapped one by one, each with a word for its size in front.
-/

namespace JamVM.Alloc.GcMem

structure Block where
  size : Nat
  pages : Nat
  data : Nat → Nat

section
variable (word sysPageSize : Nat)

def gcMemMalloc (n : Nat) : Block where
  size := n + word
  pages := (n + word + sysPageSize - 1) / sysPageSize
  data := fun _ => 0

def gcMemRealloc (addr : Option Block) (size : Nat) : Block :=
  match addr with
  | none => gcMemMalloc word sysPageSize size
  | some old =>
    let newSize := size + word
    if old.size / sysPageSize = newSize / sysPageSize then
      { old with size := newSize }
    else
      let copySize := if newSize > old.size then old.size else newSize
      { gcMemMalloc word sysPageSize size with
        data := fun index => if index < copySize - word then old.data index else 0 }

/-- A block between its allocation and `gcMemFree`. It does not grow in place while it fills its
mapping. -/
inductive Live : Block → Prop
  | malloc (n : Nat) : Live (gcMemMalloc word sysPageSize n)
  | realloc (size : Nat) : Live old → (old.size = old.pages * sysPageSize →
      old.size / sysPageSize = (size + word) / sysPageSize → size + word ≤ old.size) →
      Live (gcMemRealloc word sysPageSize (some old) size)
  | write (data : Nat → Nat) : Live old → Live { old with data }

end

def Block.Covered (sysPageSize : Nat) (block : Block) : Prop :=
  block.size ≤ block.pages * sysPageSize

section
variable (positive : 0 < page)
include positive

theorem gcMemMalloc_covered (n : Nat) : (gcMemMalloc word page n).Covered page := by
  have rounded := Nat.lt_div_mul_add (a := n + word + page - 1) positive
  simp only [Block.Covered, gcMemMalloc]
  omega

theorem gcMemRealloc_covered (covered : old.Covered page) (inside : old.size = old.pages * page →
      old.size / page = (size + word) / page → size + word ≤ old.size) :
    (gcMemRealloc word page (some old) size).Covered page := by
  unfold gcMemRealloc
  dsimp only
  split
  · rename_i quotient
    show size + word ≤ old.pages * page
    by_cases filled : old.size = old.pages * page
    · exact (inside filled quotient).trans covered
    · -- Both sizes end in the same page, which is mapped.
      have ends : old.size / page < old.pages := by
        rw [Nat.div_lt_iff_lt_mul positive]
        exact covered.lt_of_ne filled
      rw [quotient, Nat.div_lt_iff_lt_mul positive] at ends
      exact ends.le
  · exact gcMemMalloc_covered positive size

/-- While no block grows in place that fills its mapping, the pages of a block cover its size,
and reallocation keeps its bytes. -/
theorem gcMem_covered (live : Live word page block) :
    block.Covered page ∧ ∀ size index, index + word < min block.size (size + word) →
      (gcMemRealloc word page (some block) size).data index = block.data index := by
  constructor
  · induction live with
    | malloc n => exact gcMemMalloc_covered positive n
    | realloc size _ inside ih => exact gcMemRealloc_covered positive ih inside
    | write data _ ih => exact ih
  · intro size index kept
    unfold gcMemRealloc
    dsimp only
    split
    · rfl
    · exact if_pos (by split <;> omega)

end

/-- A block is written, grows in place and then into a new mapping. -/
theorem gcMem_covered_grown :
    let written := { gcMemMalloc 8 4096 100 with data := fun index => index % 256 }
    let grown := gcMemRealloc 8 4096 (some written) 2000
    let moved := gcMemRealloc 8 4096 (some grown) 5000
    grown.pages = 1 ∧ moved.pages = 2 ∧ moved.Covered 4096 ∧
      ∀ index < 100, moved.data index = index % 256 := by
  intro written grown moved
  have written_live : Live 8 4096 written := .write _ (.malloc 100)
  have grown_live : Live 8 4096 grown := .realloc 2000 written_live (by decide)
  have moved_live : Live 8 4096 moved := .realloc 5000 grown_live (by decide)
  refine ⟨by decide, by decide, (gcMem_covered (by decide) moved_live).1, fun index low => ?_⟩
  have size : written.size = 108 ∧ grown.size = 2008 := by decide
  rw [(gcMem_covered (by decide) grown_live).2 5000 index (by omega),
    (gcMem_covered (by decide) written_live).2 2000 index (by omega)]

/-- A block that fills its page grows by a byte, and no second page is mapped. -/
theorem gcMemRealloc_uncovered :
    ¬ (gcMemRealloc 8 4096 (some (gcMemMalloc 8 4096 4088)) 4089).Covered 4096 := by
  simp [Block.Covered, gcMemRealloc, gcMemMalloc]

end JamVM.Alloc.GcMem
