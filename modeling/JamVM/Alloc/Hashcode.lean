import JamVM.Alloc.CompactGraph

/-! # Identity hash codes

The hash code of an object is its address until the object is moved, and from then on a word
at its end. Objects have an identity here that stays when their blocks move.
-/

namespace JamVM.Alloc

open Compaction Function List
open Option (bind_eq_some_iff)
open TransitionSystem

/-- `HDR_HAS_HASHCODE`. The bit is a negative `int`, so it stands for all bits from 31 on. -/
def hdrHasHashcode (hdr : Nat) : Bool := hdr / 2 ^ 31 != 0

def hdrSpecialObj (hdr : Nat) : Bool := hdr / 4 % 2 == 1

def plainSize (hdr : Nat) : Nat := hdrSize hdr - if hdrHasHashcode hdr then objectGrain else 0

namespace Compaction

variable (gc : Compaction)

/-- The result, and the memory with `HASHCODE_TAKEN_BIT` set. -/
def getObjectHashcode (memory : Memory) (ob : Nat) : Nat × Memory :=
  let hdrAddr := ob - gc.headerSize
  let hdr := memory hdrAddr
  if hdrHasHashcode hdr then
    (memory (hdrAddr + hdrSize hdr - objectGrain), memory)
  else
    (ob, update memory hdrAddr (if hdrHashcodeTaken hdr then hdr else hdr + 2 ^ 30))

def blockLength (len : Nat) : Nat :=
  (len + gc.headerSize + objectGrain - 1) / objectGrain * objectGrain

def allocated (memory : Memory) (found len : Nat) : Memory := fun cell =>
  if cell = found then
    gc.blockLength len + 1
  else if found + gc.headerSize ≤ cell ∧ cell < found + gc.blockLength len then
    0
  else
    memory cell

def cloneSize (hdr : Nat) : Nat := plainSize hdr - gc.headerSize

def cloneObject (memory : Memory) (ob found : Nat) : Memory :=
  let hdr := memory (ob - gc.headerSize)
  let size := gc.cloneSize hdr
  let clone := found + gc.headerSize
  let memory := slide (gc.allocated memory found size) clone ob size
  let memory := update memory clone 0
  if hdrSpecialObj hdr then
    update memory found
      (if hdrSpecialObj (memory found) then memory found else memory found + 4)
  else
    memory

end Compaction

namespace Hashcode

structure Placed where
  id : Nat
  address : Nat
  deriving DecidableEq

structure Answer where
  id : Nat
  hashcode : Nat
  deriving DecidableEq

structure State where
  memory : Memory
  placed : List Placed
  created : Nat
  answers : List Answer

/-- A compaction moves blocks and updates references in them; `write` is such an update or an
assignment of the program. `writeFree` is what the collector and the allocator write outside
live blocks. -/
inductive Action
  | getObjectHashcode (id : Nat)
  | compactSlideBlock (id newAddr : Nat)
  | sweep (isMarked : Nat → Bool)
  | cloneObject (id found : Nat)
  | gcMalloc (found len : Nat)
  | write (id offset value : Nat)
  | writeFree (cell value : Nat)

namespace State

variable (state : State)

def addressOf (id : Nat) : Option Nat :=
  (state.placed.find? fun placed => placed.id == id).map Placed.address

def isVacant (id start size : Nat) : Bool :=
  state.placed.all fun placed => placed.id == id ||
    decide (start + size ≤ placed.address ∨
      placed.address + hdrSize (state.memory placed.address) ≤ start)

def place (id address : Nat) : List Placed :=
  state.placed.map fun placed => if placed.id = id then { placed with address } else placed

end State

section
variable (gc : Compaction)

def slideSize (hdr : Nat) : Nat := hdrSize hdr + if hdrHashcodeTaken hdr then objectGrain else 0

def step (state : State) : Action → Option State
  | .getObjectHashcode id => do
      let address ← state.addressOf id
      let (hashcode, memory) := gc.getObjectHashcode state.memory (address + gc.headerSize)
      some { state with memory := memory, answers := ⟨id, hashcode⟩ :: state.answers }
  | .compactSlideBlock id newAddr => do
      let address ← state.addressOf id
      if newAddr ≠ address ∧
          state.isVacant id newAddr (slideSize (state.memory address)) = true then
        some { state with
          memory := (gc.compactSlideBlock state.memory address newAddr).1
          placed := state.place id newAddr }
      else
        none
  | .sweep isMarked =>
    some { state with placed := state.placed.filter fun placed => isMarked placed.id }
  | .cloneObject id found => do
      let address ← state.addressOf id
      let size := gc.cloneSize (state.memory address)
      if state.isVacant state.created found (gc.blockLength size) = true then
        some { state with
          memory := gc.cloneObject state.memory (address + gc.headerSize) found
          placed := ⟨state.created, found⟩ :: state.placed
          created := state.created + 1 }
      else
        none
  | .gcMalloc found len =>
    if gc.platform.objectSize ≤ len ∧
        state.isVacant state.created found (gc.blockLength len) = true then
      some { state with
        memory := gc.allocated state.memory found len
        placed := ⟨state.created, found⟩ :: state.placed
        created := state.created + 1 }
    else
      none
  | .write id offset value => do
      let address ← state.addressOf id
      if gc.headerSize ≤ offset ∧ offset < plainSize (state.memory address) then
        some { state with memory := update state.memory (address + offset) value }
      else
        none
  | .writeFree cell value =>
    if state.isVacant state.created cell 1 then
      some { state with memory := update state.memory cell value }
    else
      none

def system : TransitionSystem State Action where
  initial state := state.placed = [] ∧ state.created = 0 ∧ state.answers = []
  step := step gc

def HasRoom (state : State) : Action → Prop
  | .gcMalloc _ len => gc.blockLength len < 2 ^ 30
  | .compactSlideBlock id _ => ∀ address ∈ state.addressOf id,
      hdrHashcodeTaken (state.memory address) = true →
        hdrSize (state.memory address) + objectGrain < 2 ^ 30
  | _ => True

instance decidableHasRoom (state : State) : (action : Action) → Decidable (HasRoom gc state action)
  | .gcMalloc _ len => inferInstanceAs (Decidable (gc.blockLength len < 2 ^ 30))
  | .compactSlideBlock id _ => inferInstanceAs (Decidable (∀ address ∈ state.addressOf id,
      hdrHashcodeTaken (state.memory address) = true →
        hdrSize (state.memory address) + objectGrain < 2 ^ 30))
  | .getObjectHashcode _ | .sweep _ | .cloneObject _ _ | .write _ _ _ | .writeFree _ _ =>
    inferInstanceAs (Decidable True)

end

/-! ## Blocks and their hash codes -/

section
variable (gc : Compaction)

structure Intact (hdr : Nat) : Prop where
  large : gc.headerSize + gc.platform.objectSize ≤ plainSize hdr
  flags : ¬(hdrHashcodeTaken hdr = true ∧ hdrHasHashcode hdr = true)

def Hashed (memory : Memory) (address hashcode : Nat) : Prop :=
  let hdr := memory address
  hdrHasHashcode hdr = true ∧ memory (address + hdrSize hdr - objectGrain) = hashcode ∨
    hdrHasHashcode hdr = false ∧ hdrHashcodeTaken hdr = true ∧ address + gc.headerSize = hashcode

def SameBlock (memory other : Memory) (address : Nat) : Prop :=
  ∀ cell, address ≤ cell → cell < address + hdrSize (memory address) → other cell = memory cell

variable {gc} {memory other : Memory} {address hashcode hdr : Nat}

theorem plainSize_le : plainSize hdr ≤ hdrSize hdr := Nat.sub_le _ _

theorem headerSize_pos : 0 < gc.headerSize := by
  rcases gc.platform.isWord with word | word <;>
    simp [headerSize, Platform.headerSize, word]

theorem Intact.headerSize_lt_plainSize (intact : Intact gc hdr) :
    gc.headerSize < plainSize hdr := by
  have large := intact.large
  rcases gc.platform.isWord with word | word <;>
    simp only [Platform.objectSize, word] at large <;> omega

theorem Intact.headerSize_lt (intact : Intact gc hdr) : gc.headerSize < hdrSize hdr :=
  Nat.lt_of_lt_of_le intact.headerSize_lt_plainSize plainSize_le

theorem SameBlock.header (same : SameBlock memory other address)
    (intact : Intact gc (memory address)) : other address = memory address :=
  same address (Nat.le_refl _) (by have := intact.headerSize_lt; omega)

theorem SameBlock.hashed (same : SameBlock memory other address)
    (intact : Intact gc (memory address))
    (hashed : Hashed gc memory address hashcode) :
    Hashed gc other address hashcode := by
  have isHeader := same.header intact
  rw [Hashed, isHeader]
  rcases hashed with ⟨has, stored⟩ | taken
  · refine .inl ⟨has, ?_⟩
    have large := intact.large
    have positive : 0 < gc.headerSize := headerSize_pos
    have grain : 0 < objectGrain := by decide
    rw [plainSize, if_pos has] at large
    rw [same _ (by omega) (by omega)]
    exact stored
  · exact .inr taken

theorem Hashed.unique (hashed : Hashed gc memory address hashcode)
    (again : Hashed gc memory address second) : hashcode = second := by
  rcases hashed with ⟨has, stored⟩ | ⟨lacks, -, stored⟩
  · rcases again with ⟨-, storedAgain⟩ | ⟨lacks, -⟩
    · exact stored.symm.trans storedAgain
    · exact absurd has (by simp [lacks])
  · rcases again with ⟨has, -⟩ | ⟨-, -, storedAgain⟩
    · exact absurd has (by simp [lacks])
    · exact stored.symm.trans storedAgain

theorem Hashed.getObjectHashcode (hashed : Hashed gc memory address hashcode) :
    (gc.getObjectHashcode memory (address + gc.headerSize)).1 = hashcode := by
  rw [Compaction.getObjectHashcode, Nat.add_sub_cancel]
  rcases hashed with ⟨has, stored⟩ | ⟨lacks, -, stored⟩
  · rw [if_pos has]
    exact stored
  · rw [if_neg (by simp [lacks])]
    exact stored

theorem taken_header (lacks : hdrHasHashcode hdr = false) :
    hdrSize (if hdrHashcodeTaken hdr then hdr else hdr + 2 ^ 30) = hdrSize hdr ∧
      hdrHasHashcode (if hdrHashcodeTaken hdr then hdr else hdr + 2 ^ 30) = false ∧
      hdrHashcodeTaken (if hdrHashcodeTaken hdr then hdr else hdr + 2 ^ 30) = true := by
  cases taken : hdrHashcodeTaken hdr with
  | true => exact ⟨rfl, lacks, taken⟩
  | false =>
    simp only [hdrHasHashcode, bne_eq_false_iff_eq, hdrHashcodeTaken,
      beq_eq_false_iff_ne] at lacks taken
    simp only [Bool.false_eq_true, if_false, hdrSize, hdrHasHashcode, hdrHashcodeTaken,
      bne_eq_false_iff_eq, beq_iff_eq]
    omega

theorem grownHeader_flags (gc : Compaction) (room : hdrSize hdr + objectGrain < 2 ^ 30) :
    hdrHasHashcode (gc.grownHeader hdr) = true ∧ hdrHashcodeTaken (gc.grownHeader hdr) = false := by
  simp only [hdrHasHashcode, bne_iff_ne, hdrHashcodeTaken, beq_eq_false_iff_ne]
  rcases gc.platform.isWord with word | word <;>
    simp only [grownHeader, hdrSize, objectGrain, word] at room ⊢ <;> omega

variable {newAddr : Nat}

theorem slide_inside (memory : Memory) (target source : Nat) (inside : offset < size) :
    Compaction.slide memory target source size (target + offset) = memory (source + offset) := by
  rw [Compaction.slide, if_pos (by omega), Nat.add_sub_cancel_left]

theorem slide_outside (outside : cell < target ∨ target + size ≤ cell) :
    Compaction.slide memory target source size cell = memory cell := by
  rw [Compaction.slide, if_neg (by omega)]

/-- The new place of a block: its header is intact, it fits, its hash code is kept, and
nothing else has changed. -/
structure Slid (gc : Compaction) (memory post : Memory) (address newAddr : Nat) : Prop where
  intact : Intact gc (post newAddr)
  size : hdrSize (post newAddr) = slideSize (memory address)
  hashed : ∀ hashcode, Hashed gc memory address hashcode → Hashed gc post newAddr hashcode
  elsewhere : ∀ cell, cell < newAddr ∨ newAddr + slideSize (memory address) ≤ cell →
    post cell = memory cell

section
variable (intact : Intact gc (memory address))
include intact

theorem Intact.copied (newAddr : Nat) :
    Compaction.slide memory newAddr address (hdrSize (memory address)) newAddr = memory address :=
  slide_inside memory newAddr address (Nat.zero_lt_of_lt intact.headerSize_lt)

theorem slid_of_kept (lacks : hdrHashcodeTaken (memory address) = false) :
    Slid gc memory (gc.compactSlideBlock memory address newAddr).1 address
      newAddr := by
  have size : slideSize (memory address) = hdrSize (memory address) := by simp [slideSize, lacks]
  simp only [Compaction.compactSlideBlock, lacks, Bool.false_eq_true, if_false]
  have isHeader := intact.copied newAddr
  constructor
  case intact => rwa [isHeader]
  case size => rw [isHeader, size]
  case elsewhere =>
    rw [size]
    exact fun cell outside => slide_outside outside
  case hashed =>
    intro hashcode hashed
    rw [Hashed, isHeader]
    rcases hashed with ⟨has, stored⟩ | ⟨-, taken, -⟩
    · refine .inl ⟨has, ?_⟩
      have large := intact.large
      have positive : 0 < gc.headerSize := headerSize_pos
      have grain : 0 < objectGrain := by decide
      rw [plainSize, if_pos has] at large
      rw [Nat.add_sub_assoc (by omega), slide_inside _ _ _ (by omega),
        ← Nat.add_sub_assoc (by omega)]
      exact stored
    · exact absurd taken (by simp [lacks])

theorem slid_of_taken (taken : hdrHashcodeTaken (memory address) = true)
    (room : hdrSize (memory address) + objectGrain < 2 ^ 30) :
    Slid gc memory (gc.compactSlideBlock memory address newAddr).1 address
      newAddr := by
  have size : slideSize (memory address) = hdrSize (memory address) + objectGrain := by
    simp [slideSize, taken]
  have positive := Nat.zero_lt_of_lt intact.headerSize_lt
  have grain : 0 < objectGrain := by decide
  have lacks : hdrHasHashcode (memory address) = false := by
    cases has : hdrHasHashcode (memory address) with
    | false => rfl
    | true => exact absurd ⟨taken, has⟩ intact.flags
  obtain ⟨has, lacksTaken⟩ := grownHeader_flags gc room
  have isMoved : (gc.compactSlideBlock memory address newAddr).1 = update (update
        (Compaction.slide memory newAddr address (hdrSize (memory address)))
        (newAddr + hdrSize (memory address)) (address + gc.headerSize))
        newAddr (gc.grownHeader (memory address)) := by
    rw [Compaction.compactSlideBlock, if_pos taken]
    dsimp only
    rw [update_of_ne (by omega), intact.copied newAddr]
  rw [isMoved]
  constructor
  case intact =>
    rw [update_self]
    refine ⟨?_, by simp [lacksTaken]⟩
    have large := intact.large
    rw [plainSize, lacks, if_neg (by decide)] at large
    rw [plainSize, if_pos has, grownHeader_size room]
    omega
  case size => rw [update_self, grownHeader_size room, size]
  case elsewhere =>
    intro cell outside
    rw [update_of_ne (by omega), update_of_ne (by omega), slide_outside (by omega)]
  case hashed =>
    intro hashcode hashed
    rw [Hashed, update_self]
    rcases hashed with ⟨hadHash, -⟩ | ⟨-, -, stored⟩
    · exact absurd hadHash (by simp [lacks])
    · refine .inl ⟨has, ?_⟩
      rw [grownHeader_size room,
        show newAddr + (hdrSize (memory address) + objectGrain) - objectGrain =
          newAddr + hdrSize (memory address) by omega,
        update_of_ne (by omega), update_self]
      exact stored

end

theorem compactSlideBlock_slid (newAddr : Nat) (intact : Intact gc (memory address))
    (room : hdrHashcodeTaken (memory address) = true →
      hdrSize (memory address) + objectGrain < 2 ^ 30) :
    Slid gc memory (gc.compactSlideBlock memory address newAddr).1 address
      newAddr := by
  cases taken : hdrHashcodeTaken (memory address) with
  | false => exact slid_of_kept intact taken
  | true => exact slid_of_taken intact taken (room taken)

end

/-! ## Runs -/

section
variable (gc : Compaction)

structure Sound (state : State) : Prop where
  identities : (state.placed.map Placed.id).Nodup
  known : ∀ placed ∈ state.placed, placed.id < state.created
  answered : ∀ answer ∈ state.answers, answer.id < state.created
  intact : ∀ placed ∈ state.placed, Intact gc (state.memory placed.address)
  apart : ∀ placed ∈ state.placed, ∀ other ∈ state.placed, placed.id ≠ other.id →
    placed.address + hdrSize (state.memory placed.address) ≤ other.address ∨
      other.address + hdrSize (state.memory other.address) ≤ placed.address
  hashed : ∀ answer ∈ state.answers, ∀ placed ∈ state.placed, placed.id = answer.id →
    Hashed gc state.memory placed.address answer.hashcode
  agreed : ∀ answer ∈ state.answers, ∀ other ∈ state.answers, answer.id = other.id →
    answer.hashcode = other.hashcode

variable {gc} {state : State} {id address : Nat}

theorem mem_of_addressOf (isPlaced : state.addressOf id = some address) :
    ⟨id, address⟩ ∈ state.placed := by
  obtain ⟨placed, found, rfl⟩ := Option.map_eq_some_iff.mp isPlaced
  have mem := mem_of_find?_eq_some found
  have isId : placed.id = id := by simpa using find?_some found
  obtain ⟨placedId, placedAddress⟩ := placed
  obtain rfl : placedId = id := isId
  exact mem

variable {start size newAddr found len : Nat} {other : Placed} {memory post : Memory}

theorem isVacant_iff : state.isVacant id start size = true ↔
    ∀ placed ∈ state.placed, placed.id ≠ id → start + size ≤ placed.address ∨
      placed.address + hdrSize (state.memory placed.address) ≤ start := by
  simp only [State.isVacant, all_eq_true, Bool.or_eq_true, beq_iff_eq, decide_eq_true_eq]
  exact forall₂_congr fun placed _ => Decidable.or_iff_not_imp_left

theorem Sound.eq_of_id (sound : Sound gc state)
    (isPlaced : placed ∈ state.placed) (isOther : other ∈ state.placed)
    (same : placed.id = other.id) : placed = other :=
  inj_on_of_nodup_map sound.identities isPlaced isOther same

theorem mem_place (isOther : other ∈ state.place id newAddr) :
    other = ⟨id, newAddr⟩ ∨ other ∈ state.placed ∧ other.id ≠ id := by
  obtain ⟨placed, isPlaced, rfl⟩ := mem_map.mp isOther
  by_cases isId : placed.id = id
  · rw [if_pos isId]
    exact .inl (congrArg (Placed.mk · newAddr) isId)
  · rw [if_neg isId]
    exact .inr ⟨isPlaced, isId⟩

theorem place_ids (newAddr : Nat) :
    (state.place id newAddr).map Placed.id = state.placed.map Placed.id := by
  rw [State.place, map_map]
  refine map_congr_left fun placed _ => ?_
  rw [comp_apply]
  split <;> rfl

section
variable (sound : Sound gc state)
include sound

section
variable
  (same : ∀ other ∈ state.placed, other.id ≠ id → SameBlock state.memory post other.address)
  (intact : Intact gc (post newAddr))
  (vacant : ∀ other ∈ state.placed, other.id ≠ id →
    newAddr + hdrSize (post newAddr) ≤ other.address ∨
      other.address + hdrSize (state.memory other.address) ≤ newAddr)

include same intact vacant

theorem Sound.put (grows : state.created ≤ made) (known : id < made)
    (identities : (placed.map Placed.id).Nodup)
    (members : ∀ other ∈ placed, other = ⟨id, newAddr⟩ ∨ other ∈ state.placed ∧ other.id ≠ id)
    (hashed : ∀ answer ∈ state.answers, id = answer.id → Hashed gc post newAddr answer.hashcode) :
    Sound gc { state with memory := post, placed := placed, created := made } := by
  have header : ∀ other ∈ state.placed, other.id ≠ id →
      post other.address = state.memory other.address :=
    fun other isOther differs => (same other isOther differs).header (sound.intact other isOther)
  exact { sound with
      identities := identities
      known := by
        intro other isOther
        rcases members other isOther with rfl | ⟨isOther, -⟩
        · exact known
        · exact (sound.known other isOther).trans_le grows
      answered := fun answer isAnswer => (sound.answered answer isAnswer).trans_le grows
      intact := by
        intro other isOther
        rcases members other isOther with rfl | ⟨isOther, differs⟩
        · exact intact
        · dsimp only
          rw [header other isOther differs]
          exact sound.intact other isOther
      apart := by
        intro first isFirst second isSecond differ
        dsimp only
        rcases members first isFirst with rfl | ⟨isFirst, firstDiffers⟩
        · rcases members second isSecond with rfl | ⟨isSecond, secondDiffers⟩
          · exact absurd rfl differ
          · rw [header second isSecond secondDiffers]
            exact vacant second isSecond secondDiffers
        · rcases members second isSecond with rfl | ⟨isSecond, secondDiffers⟩
          · rw [header first isFirst firstDiffers]
            exact (vacant first isFirst firstDiffers).symm
          · rw [header first isFirst firstDiffers, header second isSecond secondDiffers]
            exact sound.apart first isFirst second isSecond differ
      hashed := by
        intro answer isAnswer other isOther isId
        rcases members other isOther with rfl | ⟨isOther, differs⟩
        · exact hashed answer isAnswer isId
        · exact (same other isOther differs).hashed (sound.intact other isOther)
            (sound.hashed answer isAnswer other isOther isId) }

theorem Sound.move (isPlaced : ⟨id, address⟩ ∈ state.placed)
    (hashed : ∀ hashcode, Hashed gc state.memory address hashcode →
      Hashed gc post newAddr hashcode) :
    Sound gc { state with memory := post, placed := state.place id newAddr } := by
  refine sound.put same intact vacant le_rfl (sound.known _ isPlaced) ?_ (fun _ => mem_place) ?_
  · rw [place_ids]
    exact sound.identities
  · intro answer isAnswer isId
    exact hashed _ (sound.hashed answer isAnswer _ isPlaced isId)

end

section
variable (isPlaced : ⟨id, address⟩ ∈ state.placed)
include isPlaced

theorem Sound.place_self : state.place id address = state.placed := by
  refine (map_congr_left fun other isOther => ?_).trans (map_id _)
  split
  · rename_i isId
    rw [sound.eq_of_id isOther isPlaced isId]
    rfl
  · rfl

theorem Sound.change
    (same : ∀ other ∈ state.placed, other.id ≠ id → SameBlock state.memory post other.address)
    (intact : Intact gc (post address))
    (size : hdrSize (post address) = hdrSize (state.memory address))
    (hashed : ∀ hashcode, Hashed gc state.memory address hashcode →
      Hashed gc post address hashcode) :
    Sound gc { state with memory := post } := by
  have moved := sound.move same intact
    (fun other isOther differs => size ▸ sound.apart _ isPlaced other isOther (Ne.symm differs))
    isPlaced hashed
  rwa [sound.place_self isPlaced] at moved

end

theorem Sound.add (same : ∀ other ∈ state.placed, SameBlock state.memory post other.address)
    (intact : Intact gc (post found))
    (vacant : ∀ other ∈ state.placed, found + hdrSize (post found) ≤ other.address ∨
      other.address + hdrSize (state.memory other.address) ≤ found) :
    Sound gc { state with
        memory := post
        placed := ⟨state.created, found⟩ :: state.placed
        created := state.created + 1 } := by
  have old (other : Placed) (isOther : other ∈ state.placed) : other.id ≠ state.created :=
    (sound.known other isOther).ne
  refine sound.put (fun other isOther _ => same other isOther) intact
    (fun other isOther _ => vacant other isOther) (Nat.le_succ _) (Nat.lt_succ_self _) ?_ ?_ ?_
  · rw [map_cons, nodup_cons]
    refine ⟨fun isOld => ?_, sound.identities⟩
    obtain ⟨other, isOther, isId⟩ := mem_map.mp isOld
    exact old other isOther isId
  · intro other isOther
    exact (mem_cons.mp isOther).imp_right fun isOther => ⟨isOther, old other isOther⟩
  · intro answer isAnswer isId
    exact absurd isId (sound.answered answer isAnswer).ne'

theorem Sound.sweep (isMarked : Nat → Bool) : Sound gc
      { state with placed := state.placed.filter fun placed => isMarked placed.id } := by
  have isOld : ∀ placed ∈ state.placed.filter (fun placed => isMarked placed.id),
      placed ∈ state.placed := fun placed isPlaced => mem_of_mem_filter isPlaced
  exact { sound with
      identities := sound.identities.sublist (filter_sublist.map _)
      known := fun placed isPlaced => sound.known placed (isOld placed isPlaced)
      intact := fun placed isPlaced => sound.intact placed (isOld placed isPlaced)
      apart := fun placed isPlaced other isOther =>
        sound.apart placed (isOld placed isPlaced) other (isOld other isOther)
      hashed := fun answer isAnswer placed isPlaced =>
        sound.hashed answer isAnswer placed (isOld placed isPlaced) }

section
variable (isPlaced : ⟨id, address⟩ ∈ state.placed)
include isPlaced

theorem Sound.answer (hashed : Hashed gc state.memory address hashcode) :
    Sound gc { state with answers := ⟨id, hashcode⟩ :: state.answers } := by
  have agrees : ∀ answer ∈ state.answers, id = answer.id → hashcode = answer.hashcode :=
    fun answer isAnswer isId => hashed.unique (sound.hashed answer isAnswer _ isPlaced isId)
  exact { sound with
      answered := by
        intro answer isAnswer
        rcases mem_cons.mp isAnswer with rfl | isAnswer
        · exact sound.known _ isPlaced
        · exact sound.answered answer isAnswer
      hashed := by
        intro answer isAnswer placed isOther isId
        rcases mem_cons.mp isAnswer with rfl | isAnswer
        · rw [sound.eq_of_id isOther isPlaced isId]
          exact hashed
        · exact sound.hashed answer isAnswer placed isOther isId
      agreed := by
        intro answer isAnswer other isOther isId
        rcases mem_cons.mp isAnswer with rfl | isAnswer
        · rcases mem_cons.mp isOther with rfl | isOther
          · rfl
          · exact agrees other isOther isId
        · rcases mem_cons.mp isOther with rfl | isOther
          · exact (agrees answer isAnswer isId.symm).symm
          · exact sound.agreed answer isAnswer other isOther isId }

theorem Sound.sameBlock_update (value : Nat) (inside : offset < hdrSize (state.memory address))
    (isOther : other ∈ state.placed) (differs : other.id ≠ id) :
    SameBlock state.memory (update state.memory (address + offset) value)
      other.address := by
  intro cell low high
  have apart : address + hdrSize (state.memory address) ≤ other.address ∨
      other.address + hdrSize (state.memory other.address) ≤ address :=
    sound.apart ⟨id, address⟩ isPlaced other isOther (Ne.symm differs)
  rw [update_of_ne (by omega)]

theorem Sound.getObjectHashcode : Sound gc { state with
        memory := (gc.getObjectHashcode state.memory (address + gc.headerSize)).2
        answers := ⟨id, (gc.getObjectHashcode state.memory
          (address + gc.headerSize)).1⟩ :: state.answers } := by
  have intact : Intact gc (state.memory address) := sound.intact _ isPlaced
  rw [Compaction.getObjectHashcode, Nat.add_sub_cancel]
  cases has : hdrHasHashcode (state.memory address) with
  | true =>
    rw [if_pos rfl]
    exact sound.answer isPlaced (.inl ⟨has, rfl⟩)
  | false =>
    rw [if_neg (by decide)]
    obtain ⟨size, stillLacks, taken⟩ := taken_header has
    generalize isTaken : (if hdrHashcodeTaken (state.memory address) then
      state.memory address else state.memory address + 2 ^ 30) = header at size stillLacks taken
    have hashed : Hashed gc (update state.memory address header) address
        (address + gc.headerSize) := by
      rw [Hashed, update_self]
      exact .inr ⟨stillLacks, taken, rfl⟩
    have changed : Sound gc
        { state with memory := update state.memory address header } := by
      apply sound.change isPlaced
      case same =>
        have inside : 0 < hdrSize (state.memory address) := Nat.zero_lt_of_lt intact.headerSize_lt
        exact fun other isOther => sound.sameBlock_update isPlaced header inside isOther
      case intact =>
        rw [update_self]
        refine ⟨?_, by simp [stillLacks]⟩
        have large := intact.large
        rw [plainSize, has] at large
        rwa [plainSize, stillLacks, size]
      case size => rw [update_self, size]
      case hashed =>
        rintro hashcode (⟨hadHash, -⟩ | ⟨-, -, rfl⟩)
        · exact absurd hadHash (by simp [has])
        · exact hashed
    exact changed.answer isPlaced hashed

theorem Sound.write (value : Nat)
    (low : gc.headerSize ≤ offset) (high : offset < plainSize (state.memory address)) :
    Sound gc
      { state with memory := update state.memory (address + offset) value } := by
  have positive : 0 < gc.headerSize := headerSize_pos
  have inside := Nat.lt_of_lt_of_le high plainSize_le
  have intact := sound.intact _ isPlaced
  have header : update state.memory (address + offset) value address =
      state.memory address := update_of_ne (by omega) _ _
  apply sound.change isPlaced
  case same => exact fun other isOther => sound.sameBlock_update isPlaced value inside isOther
  case intact => rwa [header]
  case size => rw [header]
  case hashed =>
    rintro hashcode (⟨has, stored⟩ | taken)
    · rw [Hashed, header]
      rw [plainSize, if_pos has] at high
      refine .inl ⟨has, ?_⟩
      rw [update_of_ne (by omega)]
      exact stored
    · rw [Hashed, header]
      exact .inr taken

theorem Sound.compactSlideBlock
    (vacant : state.isVacant id newAddr (slideSize (state.memory address)) = true)
    (room : hdrHashcodeTaken (state.memory address) = true →
      hdrSize (state.memory address) + objectGrain < 2 ^ 30) :
    Sound gc { state with
        memory := (gc.compactSlideBlock state.memory address newAddr).1
        placed := state.place id newAddr } := by
  have intact : Intact gc (state.memory address) := sound.intact _ isPlaced
  have slid := compactSlideBlock_slid newAddr intact room
  rw [isVacant_iff] at vacant
  refine sound.move ?_ slid.intact (slid.size ▸ vacant) isPlaced slid.hashed
  intro other isOther differs cell low high
  have outside := vacant other isOther differs
  exact slid.elsewhere cell (by omega)

end

end

/-! ### New blocks -/

theorem blockLength_dvd (len : Nat) : objectGrain ∣ gc.blockLength len := Nat.dvd_mul_left _ _

theorem le_blockLength (len : Nat) : len + gc.headerSize ≤ gc.blockLength len := by
  simp only [Compaction.blockLength, objectGrain]
  omega

theorem new_header (grain : objectGrain ∣ size) (bound : size < 2 ^ 30)
    (isFlag : bits < objectGrain) :
    hdrSize (size + bits) = size ∧ hdrHasHashcode (size + bits) = false ∧
      hdrHashcodeTaken (size + bits) = false := by
  simp only [objectGrain] at grain isFlag
  simp only [hdrSize, hdrHasHashcode, bne_eq_false_iff_eq, hdrHashcodeTaken, beq_eq_false_iff_ne]
  omega

theorem new_intact (bound : gc.blockLength len < 2 ^ 30)
    (isFlag : bits < objectGrain) (isObject : gc.platform.objectSize ≤ len) :
    Intact gc (gc.blockLength len + bits) := by
  obtain ⟨size, lacks, lacksTaken⟩ := new_header (blockLength_dvd len) bound isFlag
  have large : len + gc.headerSize ≤ gc.blockLength len := le_blockLength len
  refine ⟨?_, by simp [lacks]⟩
  rw [plainSize, size, lacks, if_neg (by decide)]
  omega

theorem allocated_outside (outside : cell < found ∨ found + gc.blockLength len ≤ cell) :
    gc.allocated memory found len cell = memory cell := by
  have large : len + gc.headerSize ≤ gc.blockLength len := le_blockLength len
  have positive : 0 < gc.headerSize := headerSize_pos
  rw [Compaction.allocated, if_neg (by omega), if_neg (by omega)]

theorem sameBlock_of_vacant (vacant : ∀ other ∈ state.placed, start + size ≤ other.address ∨
      other.address + hdrSize (state.memory other.address) ≤ start)
    (elsewhere : ∀ cell, cell < start ∨ start + size ≤ cell → post cell = state.memory cell) :
    ∀ other ∈ state.placed, SameBlock state.memory post other.address := by
  intro other isOther cell low high
  have outside := vacant other isOther
  exact elsewhere cell (by omega)

theorem Sound.vacant_new (sound : Sound gc state)
    (vacant : state.isVacant state.created start size = true) :
    ∀ other ∈ state.placed, start + size ≤ other.address ∨
      other.address + hdrSize (state.memory other.address) ≤ start :=
  fun other isOther => isVacant_iff.mp vacant other isOther
    (Nat.ne_of_lt (sound.known other isOther))

theorem Sound.gcMalloc (sound : Sound gc state) (isObject : gc.platform.objectSize ≤ len)
    (bound : gc.blockLength len < 2 ^ 30)
    (vacant : state.isVacant state.created found (gc.blockLength len) = true) :
    Sound gc { state with
        memory := gc.allocated state.memory found len
        placed := ⟨state.created, found⟩ :: state.placed
        created := state.created + 1 } := by
  have free := sound.vacant_new vacant
  have header : gc.allocated state.memory found len found = gc.blockLength len + 1 := if_pos rfl
  refine sound.add (sameBlock_of_vacant free fun _ => allocated_outside) ?_ ?_
  · rw [header]
    exact new_intact bound (by decide) isObject
  · rw [header, (new_header (blockLength_dvd len) bound (by decide)).1]
    exact free

structure Cloned (gc : Compaction) (memory post : Memory) (address found : Nat) : Prop where
  size : hdrSize (post found) = plainSize (memory address)
  noHashcode : hdrHasHashcode (post found) = false ∧ hdrHashcodeTaken (post found) = false
  special : hdrSpecialObj (post found) = hdrSpecialObj (memory address)
  lock : post (found + gc.headerSize) = 0
  payload : ∀ offset, gc.headerSize < offset → offset < plainSize (memory address) →
    post (found + offset) = memory (address + offset)
  elsewhere : ∀ cell, cell < found ∨ found + plainSize (memory address) ≤ cell →
    post cell = memory cell

theorem plainSize_dvd (hdr : Nat) : objectGrain ∣ plainSize hdr := by
  simp only [plainSize, hdrSize, objectGrain]
  split <;> omega

theorem plainSize_lt (hdr : Nat) : plainSize hdr < 2 ^ 30 := by
  simp only [plainSize, hdrSize, objectGrain]
  omega

theorem Intact.blockLength_clone (intact : Intact gc hdr) :
    gc.blockLength (gc.cloneSize hdr) = plainSize hdr := by
  have large := intact.large
  have grain := plainSize_dvd hdr
  simp only [objectGrain] at grain
  simp only [Compaction.blockLength, Compaction.cloneSize, objectGrain]
  omega

theorem hdrSpecialObj_new (grain : objectGrain ∣ size) :
    hdrSpecialObj (size + 1) = false ∧ hdrSpecialObj (size + 5) = true := by
  simp only [objectGrain] at grain
  simp only [hdrSpecialObj, beq_eq_false_iff_ne, beq_iff_eq]
  omega

theorem cloneObject_eq (intact : Intact gc (memory address)) :
    gc.cloneObject memory (address + gc.headerSize) found = update (update
          (Compaction.slide (gc.allocated memory found (gc.cloneSize (memory address)))
            (found + gc.headerSize) (address + gc.headerSize)
            (gc.cloneSize (memory address)))
          (found + gc.headerSize) 0)
        found (plainSize (memory address) +
          if hdrSpecialObj (memory address) then 5 else 1) := by
  have positive : 0 < gc.headerSize := headerSize_pos
  have notSpecial := (hdrSpecialObj_new (plainSize_dvd (memory address))).1
  have header : update (Compaction.slide (gc.allocated memory found (gc.cloneSize (memory address)))
        (found + gc.headerSize) (address + gc.headerSize)
        (gc.cloneSize (memory address)))
      (found + gc.headerSize) 0 found = plainSize (memory address) + 1 := by
    rw [update_of_ne (by omega), slide_outside (by omega), Compaction.allocated,
      if_pos rfl, intact.blockLength_clone]
  rw [Compaction.cloneObject, Nat.add_sub_cancel]
  cases hdrSpecialObj (memory address) with
  | true =>
    rw [if_pos rfl, if_pos rfl, header, notSpecial]
    rfl
  | false => rw [if_neg (by decide), if_neg (by decide), ← header, update_eq_self]

theorem cloneObject_cloned (intact : Intact gc (memory address))
    (vacant : found + plainSize (memory address) ≤ address ∨
      address + hdrSize (memory address) ≤ found) :
    Cloned gc memory (gc.cloneObject memory (address + gc.headerSize) found) address found := by
  have positive : 0 < gc.headerSize := headerSize_pos
  have large := intact.headerSize_lt_plainSize
  have smaller : plainSize (memory address) ≤ hdrSize (memory address) := plainSize_le
  have length := intact.blockLength_clone
  have grain := plainSize_dvd (memory address)
  have isFlag : (if hdrSpecialObj (memory address) = true then 5 else 1) < objectGrain := by
    split <;> decide
  obtain ⟨size, lacks, lacksTaken⟩ := new_header grain (plainSize_lt _) isFlag
  rw [cloneObject_eq intact]
  constructor
  case size => rw [update_self, size]
  case noHashcode =>
    rw [update_self]
    exact ⟨lacks, lacksTaken⟩
  case special =>
    rw [update_self]
    cases hdrSpecialObj (memory address) with
    | true => exact (hdrSpecialObj_new grain).2
    | false => exact (hdrSpecialObj_new grain).1
  case lock => rw [update_of_ne (by omega), update_self]
  case payload =>
    intro offset low high
    have inside : offset - gc.headerSize < gc.cloneSize (memory address) := by
      rw [Compaction.cloneSize]
      omega
    have place : found + offset = found + gc.headerSize + (offset - gc.headerSize) := by omega
    rw [update_of_ne (by omega), update_of_ne (by omega), place,
      slide_inside _ _ _ inside, allocated_outside (by rw [length]; omega)]
    congr 1
    omega
  case elsewhere =>
    intro cell outside
    rw [update_of_ne (by omega), update_of_ne (by omega),
      slide_outside (by rw [Compaction.cloneSize]; omega),
      allocated_outside (by rw [length]; omega)]

theorem Sound.cloneObject (sound : Sound gc state) (isPlaced : ⟨id, address⟩ ∈ state.placed)
    (vacant : state.isVacant state.created found (gc.blockLength
      (gc.cloneSize (state.memory address))) = true) :
    Cloned gc state.memory (gc.cloneObject state.memory (address + gc.headerSize) found)
        address found ∧
      Sound gc { state with
          memory := gc.cloneObject state.memory (address + gc.headerSize) found
          placed := ⟨state.created, found⟩ :: state.placed
          created := state.created + 1 } := by
  have intact : Intact gc (state.memory address) := sound.intact _ isPlaced
  rw [intact.blockLength_clone] at vacant
  have free := sound.vacant_new vacant
  have cloned := cloneObject_cloned intact (free _ isPlaced)
  refine ⟨cloned, sound.add (sameBlock_of_vacant free cloned.elsewhere) ?_ ?_⟩
  · refine ⟨?_, by simp [cloned.noHashcode]⟩
    rw [plainSize, cloned.size, cloned.noHashcode.1]
    exact intact.large
  · rw [cloned.size]
    exact free

theorem Sound.writeFree (sound : Sound gc state) (value : Nat)
    (vacant : state.isVacant state.created cell 1 = true) :
    Sound gc { state with memory := update state.memory cell value } := by
  have same := sameBlock_of_vacant (sound.vacant_new vacant) fun other outside =>
    update_of_ne (show other ≠ cell by omega) value state.memory
  obtain isEmpty | nonempty := eq_or_ne state.placed []
  · exact { sound with
        intact := by simp [isEmpty]
        apart := by simp [isEmpty]
        hashed := by simp [isEmpty] }
  · obtain ⟨placed, isPlaced⟩ := exists_mem_of_ne_nil _ nonempty
    have intact := sound.intact placed isPlaced
    have header := (same placed isPlaced).header intact
    refine sound.change isPlaced (fun other isOther _ => same other isOther) ?_ ?_
      fun _ => (same placed isPlaced).hashed intact
    · rwa [header]
    · rw [header]

theorem Sound.step (sound : Sound gc state) (room : HasRoom gc state action)
    (ran : step gc state action = some res) : Sound gc res := by
  cases action with
  | getObjectHashcode =>
    obtain ⟨address, isPlaced, ran⟩ := bind_eq_some_iff.mp ran
    cases ran
    exact sound.getObjectHashcode (mem_of_addressOf isPlaced)
  | compactSlideBlock =>
    obtain ⟨address, isPlaced, ran⟩ := bind_eq_some_iff.mp ran
    obtain ⟨⟨-, vacant⟩, rfl⟩ := of_guard ran
    exact sound.compactSlideBlock (mem_of_addressOf isPlaced) vacant (room address isPlaced)
  | sweep isMarked =>
    cases ran
    exact sound.sweep isMarked
  | cloneObject =>
    obtain ⟨address, isPlaced, ran⟩ := bind_eq_some_iff.mp ran
    obtain ⟨vacant, rfl⟩ := of_guard ran
    exact (sound.cloneObject (mem_of_addressOf isPlaced) vacant).2
  | gcMalloc =>
    obtain ⟨⟨isObject, vacant⟩, rfl⟩ := of_guard ran
    exact sound.gcMalloc isObject room vacant
  | write id offset value =>
    obtain ⟨address, isPlaced, ran⟩ := bind_eq_some_iff.mp ran
    obtain ⟨⟨low, high⟩, rfl⟩ := of_guard ran
    exact sound.write (mem_of_addressOf isPlaced) value low high
  | writeFree cell value =>
    obtain ⟨vacant, rfl⟩ := of_guard ran
    exact sound.writeFree value vacant

theorem Sound.of_reachable (reachable : (system gc).ReachableWhile (HasRoom gc) state) :
    Sound gc state := by
  refine reachable.invariant (Sound gc) ?_ fun _ _ _ sound room ran => sound.step room ran
  rintro start ⟨isEmpty, -, isSilent⟩
  constructor
  case identities | known | intact | apart => simp [isEmpty]
  case answered | hashed | agreed => simp [isSilent]

structure Stable (gc : Compaction) (state : State) : Prop where
  same : ∀ answer ∈ state.answers, ∀ other ∈ state.answers, answer.id = other.id →
    answer.hashcode = other.hashcode
  again : ∀ answer ∈ state.answers, ∀ placed ∈ state.placed, placed.id = answer.id →
    (gc.getObjectHashcode state.memory (placed.address + gc.headerSize)).1 = answer.hashcode
  flags : ∀ placed ∈ state.placed, ¬(hdrHashcodeTaken (state.memory placed.address) = true ∧
    hdrHasHashcode (state.memory placed.address) = true)
  clones : ∀ id found next, step gc state (.cloneObject id found) = some next →
    ∃ address, ⟨id, address⟩ ∈ state.placed ∧ ⟨state.created, found⟩ ∈ next.placed ∧
      Cloned gc state.memory next.memory address found

/-- Hash codes are stable and clones are faithful as long as sizes have room in headers. -/
theorem hashcodes_stable (reachable : (system gc).ReachableWhile (HasRoom gc) state) :
    Stable gc state := by
  have sound := Sound.of_reachable reachable
  constructor
  case same => exact sound.agreed
  case again =>
    intro answer isAnswer placed isPlaced isId
    exact (sound.hashed answer isAnswer placed isPlaced isId).getObjectHashcode
  case flags => exact fun placed isPlaced => (sound.intact placed isPlaced).flags
  case clones =>
    intro id found next ran
    obtain ⟨address, isPlaced, ran⟩ := bind_eq_some_iff.mp ran
    obtain ⟨vacant, rfl⟩ := of_guard ran
    have mem := mem_of_addressOf isPlaced
    exact ⟨address, mem, mem_cons_self, (sound.cloneObject mem vacant).1⟩

end

section

abbrev sampleCompaction : Compaction := arrayCompaction 40

def emptyState : State := ⟨fun _ => 0, [], 0, []⟩

def moveOnce (len newAddr : Nat) : List Action :=
  [.gcMalloc 64 len, .getObjectHashcode 0, .compactSlideBlock 0 newAddr, .getObjectHashcode 0]

theorem hashcodes_stable_sample :
    ∃ state, (system sampleCompaction).ReachableWhile (HasRoom sampleCompaction) state ∧
      state.answers = [⟨0, 72⟩, ⟨0, 72⟩, ⟨0, 72⟩] ∧ state.placed = [⟨1, 200⟩, ⟨0, 8⟩] ∧
      Stable sampleCompaction state := by
  have executed : ((system sampleCompaction).runWhile (HasRoom sampleCompaction) emptyState
      (moveOnce 24 56 ++ [.compactSlideBlock 0 8, .getObjectHashcode 0,
        .cloneObject 0 200])).any (fun state =>
          state.answers = [⟨0, 72⟩, ⟨0, 72⟩, ⟨0, 72⟩] ∧
            state.placed = [⟨1, 200⟩, ⟨0, 8⟩]) = true := by decide +kernel
  obtain ⟨state, reachable, isAnswered, isPlaced⟩ :=
    TransitionSystem.ReachableWhile.of_any _ _ (.initial (by exact ⟨rfl, rfl, rfl⟩)) executed
  exact ⟨state, reachable, isAnswered, isPlaced, hashcodes_stable reachable⟩

/-- The size of the largest block carries into `HASHCODE_TAKEN_BIT` when the block grows. -/
theorem hashcode_changes : ∃ state, (system sampleCompaction).Reachable state ∧
      state.answers = [⟨0, 0⟩, ⟨0, 72⟩] ∧ state.placed = [⟨0, 56⟩] ∧
      hdrHashcodeTaken (state.memory 56) = true ∧ hdrHasHashcode (state.memory 56) = true := by
  refine TransitionSystem.Reachable.of_any emptyState (moveOnce (2 ^ 30 - 16) 56)
    (.initial ⟨rfl, rfl, rfl⟩) ?_
  decide +kernel

end

end Hashcode

end JamVM.Alloc
