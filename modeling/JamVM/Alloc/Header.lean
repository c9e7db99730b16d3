import JamVM.Alloc.Allocate
import JamVM.Alloc.Hashcode

/-! # Sizes and flags in one word

The header of a block from its allocation on. The size has the bits 3 to 29 and the flags have
the others; the largest heap that the command line admits has larger blocks.
-/

namespace JamVM.Alloc

open Compaction

/-! ## Sizes on the command line -/

def digitValue (base : Nat) (char : Char) : Option Nat :=
  (if char.isDigit then some (char.toNat - '0'.toNat)
    else if char.isLower then some (char.toNat - 'a'.toNat + 10)
    else if char.isUpper then some (char.toNat - 'A'.toNat + 10)
    else none).filter (· < base)

def readDigits (base : Nat) : Nat → List Char → Nat × List Char
  | value, [] => (value, [])
  | value, char :: rest =>
    match digitValue base char with
    | some digit => readDigits base (value * base + digit) rest
    | none => (value, char :: rest)

def readNumber (str : List Char) : Option (Nat × List Char) :=
  match str with
  | '0' :: x :: char :: rest =>
    if x.toLower = 'x' ∧ (digitValue 16 char).isSome then
      some (readDigits 16 0 (char :: rest))
    else
      some (readDigits 8 0 str)
  | '0' :: _ => some (readDigits 8 0 str)
  | char :: _ => if char.isDigit then some (readDigits 10 0 str) else none
  | [] => none

variable (plat : Platform)

def strtol (str : List Char) : Int × List Char :=
  let trimmed := str.dropWhile fun char => char = ' ' ∨ 9 ≤ char.toNat ∧ char.toNat ≤ 13
  let (sign, body) : Int × List Char := match trimmed with
    | '-' :: rest => (-1, rest)
    | '+' :: rest => (1, rest)
    | _ => (1, trimmed)
  match readNumber body with
  | some (value, rest) =>
    (max (-(plat.wordLimit / 2 : Nat)) (min (sign * value) (plat.wordLimit / 2 - 1)), rest)
  | none => (0, str)

def parseMemValue (str : List Char) : Nat :=
  let (value, rest) := strtol plat str
  let n := plat.toWord value
  match rest with
  | [] => n
  | unit :: rest =>
    let factor := match unit.toLower with
      | 'g' => 1024 * 1024 * 1024
      | 'm' => 1024 * 1024
      | 'k' => 1024
      | _ => 0
    if rest = [] then n * factor % plat.wordLimit else 0

def acceptsHeap (str : List Char) : Bool := 4 * 1024 ≤ parseMemValue plat str

/-! ## Header operations -/

inductive HeaderOp
  | special
  | takeHashcode
  | move
  deriving DecidableEq

structure HeaderBlock where
  header : Nat
  extent : Nat
  special : Bool
  taken : Bool
  has : Bool

namespace HeaderBlock

def allocated (header extent : Nat) : HeaderBlock := ⟨header, extent, false, false, false⟩

def apply (gc : Compaction) (block : HeaderBlock) : HeaderOp → HeaderBlock
  | .special =>
    { block with
      header := if hdrSpecialObj block.header then block.header else block.header + 4
      special := true }
  | .takeHashcode =>
    if hdrHasHashcode block.header then
      block
    else
      { block with
        header := if hdrHashcodeTaken block.header then block.header else block.header + 2 ^ 30
        taken := true }
  | .move =>
    if hdrHashcodeTaken block.header then
      { block with
        header := gc.grownHeader block.header
        extent := block.extent + objectGrain
        taken := false
        has := true }
    else
      block

structure Faithful (block : HeaderBlock) : Prop where
  size : hdrSize block.header = block.extent
  alloced : hdrAlloced block.header = true
  special : hdrSpecialObj block.header = block.special
  taken : hdrHashcodeTaken block.header = block.taken
  has : hdrHasHashcode block.header = block.has

variable {gc : Compaction} {block : HeaderBlock}

variable {n : Nat}

theorem faithful_allocated (grain : objectGrain ∣ n) (small : n < 2 ^ 30) :
    (allocated (n + 1) n).Faithful := by
  simp only [objectGrain] at grain
  constructor <;>
    simp only [allocated, hdrSize, hdrAlloced, hdrSpecialObj, hdrHashcodeTaken, hdrHasHashcode,
      beq_iff_eq, beq_eq_false_iff_ne, bne_eq_false_iff_eq] <;> omega

theorem Faithful.setSpecial (faithful : block.Faithful) : (block.apply gc .special).Faithful := by
  obtain ⟨size, alloced, special, taken, has⟩ := faithful
  rw [apply]
  split
  · rename_i isSet
    exact ⟨size, alloced, isSet, taken, has⟩
  · rename_i notSet
    simp only [hdrSize, hdrAlloced, hdrSpecialObj, hdrHashcodeTaken, hdrHasHashcode,
      beq_iff_eq] at size alloced notSet taken has
    constructor
    · simp only [hdrSize]
      omega
    · simp only [hdrAlloced, beq_iff_eq]
      omega
    · simp only [hdrSpecialObj, beq_iff_eq]
      omega
    · rw [← taken]
      simp only [hdrHashcodeTaken]
      congr 1
      omega
    · rw [← has]
      simp only [hdrHasHashcode]
      congr 1
      omega

theorem Faithful.takeHashcode (faithful : block.Faithful) :
    (block.apply gc .takeHashcode).Faithful := by
  rw [apply]
  split
  · exact faithful
  · rename_i lacks
    rw [Bool.not_eq_true] at lacks
    obtain ⟨size, lacksStill, isTaken⟩ := Hashcode.taken_header lacks
    refine ⟨size.trans faithful.size, ?_, ?_, isTaken, lacksStill.trans (lacks ▸ faithful.has)⟩
    · rw [← faithful.alloced]
      split
      · rfl
      · simp only [hdrAlloced]
        congr 1
        omega
    · rw [← faithful.special]
      split
      · rfl
      · simp only [hdrSpecialObj]
        congr 1
        omega

theorem Faithful.move (faithful : block.Faithful)
    (room : block.extent + objectGrain < 2 ^ 30) : (block.apply gc .move).Faithful := by
  rw [apply]
  split
  · rw [← faithful.size] at room
    obtain ⟨has, notTaken⟩ := Hashcode.grownHeader_flags gc room
    refine ⟨(grownHeader_size room).trans (by rw [faithful.size]),
      (grownHeader_alloced _).trans faithful.alloced, ?_, notTaken, has⟩
    rw [← faithful.special]
    have quarter : gc.grownHeader block.header / 4 % 2 = block.header / 4 % 2 := by
      rcases gc.platform.isWord with word | word <;>
        simp only [grownHeader, objectGrain, word] <;> omega
    rw [hdrSpecialObj, hdrSpecialObj, quarter]
  · exact faithful

structure Bounded (n : Nat) (block : HeaderBlock) : Prop where
  faithful : block.Faithful
  extent : block.extent = if block.has then n + objectGrain else n
  once : block.has = true → block.taken = false

theorem Bounded.apply (bounded : Bounded n block) (op : HeaderOp)
    (room : op = .move → block.taken = true → n + objectGrain < 2 ^ 30) :
    Bounded n (block.apply gc op) := by
  obtain ⟨faithful, extent, once⟩ := bounded
  cases op with
  | special => exact ⟨faithful.setSpecial, extent, once⟩
  | takeHashcode =>
    refine ⟨faithful.takeHashcode, ?_, ?_⟩
    · rw [HeaderBlock.apply]
      split <;> exact extent
    · rw [HeaderBlock.apply]
      split
      · exact once
      · rename_i lacks
        exact fun has => absurd (faithful.has.trans has) lacks
  | move =>
    rw [HeaderBlock.apply, faithful.taken]
    cases taken : block.taken with
    | false => exact ⟨faithful, extent, once⟩
    | true =>
      have lacks : block.has = false := by
        rw [← Bool.not_eq_true]
        intro has
        simp [once has] at taken
      have plain : block.extent = n := by simpa [lacks] using extent
      have moved : (block.apply gc .move).Faithful := faithful.move (plain.symm ▸ room rfl taken)
      rw [HeaderBlock.apply, faithful.taken, taken] at moved
      exact ⟨moved, by simp [plain], by simp⟩

theorem taken_of_apply (taken : (block.apply gc op).taken = true) :
    block.taken = true ∨ op = .takeHashcode := by
  cases op with
  | special => exact .inl taken
  | takeHashcode => exact .inr rfl
  | move =>
    rw [apply] at taken
    split at taken
    · cases taken
    · exact .inl taken

def Grows (ops : List HeaderOp) : Prop :=
  ∃ pre rest, ops = pre ++ .move :: rest ∧ .takeHashcode ∈ pre

theorem Bounded.applyAll (bounded : Bounded n block) (ops : List HeaderOp)
    (room : Grows ops ∨ block.taken = true ∧ .move ∈ ops → n + objectGrain < 2 ^ 30) :
    Bounded n (ops.foldl (HeaderBlock.apply gc) block) := by
  induction ops generalizing block with
  | nil => exact bounded
  | cons op ops ih =>
    refine ih (bounded.apply op ?_) ?_
    · exact fun same taken => room (.inr ⟨taken, same ▸ List.mem_cons_self⟩)
    · rintro (⟨pre, rest, rfl, mem⟩ | ⟨taken, mem⟩)
      · exact room (.inl ⟨op :: pre, rest, rfl, List.mem_cons_of_mem _ mem⟩)
      · rcases taken_of_apply taken with already | rfl
        · exact room (.inr ⟨already, List.mem_cons_of_mem _ mem⟩)
        · obtain ⟨pre, rest, rfl⟩ := List.append_of_mem mem
          exact room (.inl ⟨.takeHashcode :: pre, rest, rfl, List.mem_cons_self⟩)

end HeaderBlock

/-! ## The block that `gcMalloc` hands out -/

variable {plat}

namespace Malloc

theorem failed_outcome {malloc : Malloc} (unfinished : malloc.outcome = none) :
    (malloc.failed plat gc0 n).outcome ≠ some (.block addr) := by
  have finalizers : ∀ malloc : Malloc, malloc.outcome = none →
      (malloc.runFinalizers plat gc0 n).outcome ≠ some (.block addr) := by
    intro malloc unfinished
    unfold runFinalizers
    dsimp only [collect, expand]
    split
    · simp [unfinished]
    · split
      · simp [unfinished]
      · split <;> simp [unfinished]
  unfold failed
  split
  · dsimp only [collect]
    split
    · simp [unfinished]
    · exact finalizers _ unfinished
  · exact finalizers _ unfinished
  · simp

theorem round_header {malloc : Malloc} (unfinished : malloc.outcome = none)
    (served : (malloc.round plat gc0 n).outcome = some (.block addr)) :
    (malloc.round plat gc0 n).heap.memory (addr - plat.headerSize) = plat.toWord n + 1 := by
  unfold round at served ⊢
  split at served
  · obtain rfl : _ + plat.headerSize = addr := by simpa using served
    simp [HeapState.gotIt]
  · exact absurd served (failed_outcome unfinished)

end Malloc

theorem gcMalloc_header
    (served : (gcMalloc plat gc0 heap state len fuel).outcome = some (.block addr)) :
    (gcMalloc plat gc0 heap state len fuel).heap.memory (addr - plat.headerSize) =
      plat.toWord (roundedSize plat len) + 1 := by
  refine whileLoop_invariant (fun malloc : Malloc => ∀ addr,
    malloc.outcome = some (.block addr) → malloc.heap.memory (addr - plat.headerSize) =
      plat.toWord (roundedSize plat len) + 1) ?_ fuel ?_ addr served
  · intro malloc _ continues addr served
    exact Malloc.round_header (Option.isNone_iff_eq_none.mp continues) served
  · intro addr served
    cases served

theorem roundedSize_grain (len : Int) : objectGrain ∣ plat.toWord (roundedSize plat len) := by
  have multiple := dvd_roundedSize plat len
  generalize roundedSize plat len = size at multiple
  simp only [objectGrain] at multiple
  rcases plat.isWord with word | word <;>
    simp only [Platform.toWord, Platform.wordLimit, word, objectGrain] <;> omega

/-- The header of a block below 2^30 bytes is faithful from its allocation on, through every
sequence of operations. -/
theorem header_faithful (gc : Compaction) (gc0 : Gc0) (heap : HeapState)
    (state : FailureState) (len : Int) (fuel addr : Nat) (ops : List HeaderOp)
    (served : (gcMalloc gc.platform gc0 heap state len fuel).outcome = some (.block addr))
    (small : gc.platform.toWord (roundedSize gc.platform len) < 2 ^ 30)
    (room : HeaderBlock.Grows ops →
      gc.platform.toWord (roundedSize gc.platform len) + objectGrain < 2 ^ 30) :
    (ops.foldl (HeaderBlock.apply gc) (.allocated
      ((gcMalloc gc.platform gc0 heap state len fuel).heap.memory (addr - gc.platform.headerSize))
      (gc.platform.toWord (roundedSize gc.platform len)))).Faithful := by
  have initially : (HeaderBlock.allocated (gc.platform.toWord (roundedSize gc.platform len) + 1)
      (gc.platform.toWord (roundedSize gc.platform len))).Bounded
        (gc.platform.toWord (roundedSize gc.platform len)) :=
    ⟨HeaderBlock.faithful_allocated (roundedSize_grain len) small,
      by simp [HeaderBlock.allocated], by simp [HeaderBlock.allocated]⟩
  rw [gcMalloc_header served]
  exact (initially.applyAll ops
    (room <| ·.resolve_right (by simp [HeaderBlock.allocated]))).faithful

def wholeHeap (size : Nat) : HeapState where
  memory cell := if cell = 64 then size else 0
  base := 64
  limit := 64 + size
  max := 64 + size
  freelist := 64
  chunkpp := none
  heapfree := size

theorem header_faithful_moved :
    let gc := arrayCompaction 40
    let malloc := gcMalloc gc.platform (fun _ heap _ _ => (heap, 0)) (wholeHeap 4096) .gc 40 1
    (List.foldl (HeaderBlock.apply gc) (.allocated
      (malloc.heap.memory (72 - gc.platform.headerSize))
      (gc.platform.toWord (roundedSize gc.platform 40)))
      [.special, .takeHashcode, .move, .takeHashcode, .move]).Faithful :=
  header_faithful (arrayCompaction 40) (fun _ heap _ _ => (heap, 0)) (wholeHeap 4096)
    .gc 40 1 72 [.special, .takeHashcode, .move, .takeHashcode, .move] (by decide +kernel)
    (by decide +kernel) (fun _ => by decide +kernel)

/-- With `-Xmx2g` a block of 2^30 bytes is handed out whose header says that it has no bytes and
that its hash code has been taken. -/
theorem header_overflows : acceptsHeap ⟨8, .inr rfl⟩ "2g".toList = true ∧
      parseMemValue ⟨8, .inr rfl⟩ "2g".toList = 2 ^ 31 ∧
      (let malloc := gcMalloc ⟨8, .inr rfl⟩ (fun _ heap _ _ => (heap, 0)) (wholeHeap (2 ^ 31)) .gc
        (2 ^ 30 - 8) 1
      malloc.outcome = some (.block 72) ∧ hdrSize (malloc.heap.memory 64) = 0 ∧
        hdrHashcodeTaken (malloc.heap.memory 64) = true) := by
  decide +kernel

end JamVM.Alloc
