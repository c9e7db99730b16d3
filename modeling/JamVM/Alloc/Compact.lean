import JamVM.Alloc.Mark
import JamVM.Alloc.Memory

/-! # Compaction

`doCompact` threads every reference onto the header of the object it refers to
and walks the heap twice. The first walk updates the references to objects
further up and threads the references out of each object; the second updates the
remaining ones and slides the objects down.
-/

namespace JamVM.Alloc

open Function

/-- What a compaction finds. `conservativeRoots` is the list behind the hash
table, `rootSlots` the addresses of the references outside the heap that are
threaded before the first walk, `referenceList` the address of `reference_list`
when it is threaded. The class block of a class is read as a layout: where a
reference is held, `classBlock` has the address of its word. `loaderTable` gives
the addresses of the words in a loader's table. The number of words in a chain
is bounded by `links`. -/
structure Compaction where
  platform : Platform
  base : Nat
  limit : Nat
  referentOffset : Nat
  queueOffset : Nat
  marks : Nat → Mark
  conservativeRoots : List Nat
  classBlock : Nat → ClassBlock
  loaderTable : Nat → List Nat
  rootSlots : List Nat
  referenceList : Nat
  links : Nat

namespace Compaction

variable (gc : Compaction)

def headerSize : Nat := gc.platform.headerSize

def classSlot (ob : Nat) : Nat := ob + gc.platform.wordSize

def isConservativeRoot (ob : Nat) : Bool :=
  gc.conservativeRoots.any fun root => root / objectGrain == ob / objectGrain

/-! ## Threading -/

section
variable (memory : Memory)

def threadReference (ref : Nat) : Memory := Threading.thread memory ref (memory ref - gc.headerSize)

def threadReferences (refs : List Nat) : Memory :=
  Threading.threadAll (fun ob => ob - gc.headerSize) memory refs

def unthreadHeader (hdrAddr newAddr : Nat) : Memory :=
  Threading.unthread gc.links memory hdrAddr newAddr

/-- The words that `threadClassData` threads if they are not `NULL`. The element
class and the interfaces in the interface method table never are. -/
def classSlots (ob : Nat) : List Nat := (threadClassData (gc.classBlock ob)).reduceOption

def elementSlots (ob : Nat) : List Nat :=
  let word := gc.platform.wordSize
  (List.range (memory (ob + gc.platform.objectSize))).map fun index =>
    ob + gc.platform.objectSize + word + index * word

def instanceSlots (ob : Nat) (cb : ClassBlock) : List Nat :=
  (cb.referenceOffsets gc.platform.wordSize).map fun offset => ob + offset

def keepsReferent (kind : ReferenceKind) (mark : Mark) : Bool :=
  if kind == .phantom then mark != phantomMark else mark == hardMark

variable (reference : ObjectList Nat)

def threadReferent (ob : Nat) (kind : ReferenceKind) : Memory × ObjectList Nat :=
  let referent := ob + gc.referentOffset
  if memory referent = 0 then
    (memory, reference)
  else if keepsReferent kind (gc.marks (memory referent)) then
    (gc.threadReference memory referent, reference)
  else
    let cleared := kind != .phantom
    let memory := if cleared then update memory referent 0 else memory
    let reference :=
      if memory (ob + gc.queueOffset) ≠ 0 then reference.addToObjectList ob else reference
    (if cleared then memory else gc.threadReference memory referent, reference)

def threadSpecial (ob : Nat) (cb : ClassBlock) : Memory × ObjectList Nat :=
  if cb.isSpecial then
    if cb.flags.classClass then
      (gc.threadReferences memory (gc.classSlots ob), reference)
    else if cb.flags.classLoader then
      (gc.threadReferences memory (gc.loaderTable ob), reference)
    else
      match cb.flags.reference with
      | some kind => gc.threadReferent memory reference ob kind
      | none => (memory, reference)
  else
    (memory, reference)

def threadContents (ob : Nat) (cb : ClassBlock) : Memory × ObjectList Nat :=
  if cb.hasArrayName then
    if cb.hasReferenceElements then
      (gc.threadReferences memory (gc.elementSlots memory ob), reference)
    else
      (memory, reference)
  else
    let (memory, reference) := gc.threadSpecial memory reference ob cb
    (gc.threadReferences memory (gc.instanceSlots ob cb), reference)

def threadChildren (ob : Nat) : Memory × ObjectList Nat :=
  let type := memory (gc.classSlot ob)
  if type = 0 then
    (memory, reference)
  else
    let (memory, reference) := gc.threadContents memory reference ob (gc.classBlock type)
    (gc.threadReference memory (gc.classSlot ob), reference)

end

/-! ## The first walk -/

structure FirstPass where
  memory : Memory
  reference : ObjectList Nat
  ptr : Nat
  newAddr : Nat

def markedPhase1 (pass : FirstPass) (hdr : Nat) : FirstPass :=
  let (memory, reference) := gc.threadChildren pass.memory pass.reference
    (pass.ptr + gc.headerSize)
  let newAddr :=
    if pass.newAddr ≠ pass.ptr ∧ hdrHashcodeTaken hdr then
      pass.newAddr + objectGrain
    else
      pass.newAddr
  { memory := memory
    reference := reference
    ptr := pass.ptr + hdrSize hdr
    newAddr := newAddr + hdrSize hdr }

def destinationOf (ptr newAddr : Nat) : Nat :=
  if gc.isConservativeRoot (ptr + gc.headerSize) then ptr else newAddr

def firstPassStep (pass : FirstPass) : FirstPass :=
  let hdr := pass.memory pass.ptr
  let ob := pass.ptr + gc.headerSize
  let newAddr := gc.destinationOf pass.ptr pass.newAddr
  if hdrThreaded hdr then
    let memory := gc.unthreadHeader pass.memory pass.ptr (newAddr + gc.headerSize)
    gc.markedPhase1 { pass with memory, newAddr } (memory pass.ptr)
  else if hdrAlloced hdr then
    if gc.marks ob ≠ 0 then
      gc.markedPhase1 { pass with newAddr } hdr
    else
      { pass with ptr := pass.ptr + hdrSize hdr }
  else
    { pass with ptr := pass.ptr + hdr }

def firstPass (memory : Memory) (reference : ObjectList Nat) : FirstPass :=
  whileLoop (fun pass => pass.ptr < gc.limit) gc.firstPassStep (gc.limit - gc.base)
    { memory := gc.threadReferences memory gc.rootSlots
      reference := reference
      ptr := gc.base
      newAddr := gc.base }

/-! ## The reference list -/

def referenceSlot (index : Nat) : Nat := gc.referenceList + index * gc.platform.wordSize

def storeReferenceList (memory : Memory) (reference : ObjectList Nat) : Memory := fun cell =>
  let index := (cell - gc.referenceList) / gc.platform.wordSize
  if index < reference.size ∧ cell = gc.referenceSlot index then
    (reference.list index).getD 0
  else
    memory cell

def threadReferenceList (memory : Memory) (reference : ObjectList Nat) : Memory :=
  gc.threadReferences (gc.storeReferenceList memory reference)
    (reference.iterateIndices.map gc.referenceSlot)

/-! ## The second walk -/

/-- `newlist` is the field `newlist.next`; `last` is `none` while it points to
`newlist`. -/
structure SecondPass where
  memory : Memory
  ptr : Nat
  newAddr : Nat
  newlist : Nat
  last : Option Nat
  largest : Nat
  heapfree : Nat

section
variable (pass : SecondPass)

def setLastNext (next : Nat) : SecondPass :=
  match pass.last with
  | none => { pass with newlist := next }
  | some chunk =>
    { pass with
      memory := update pass.memory (chunk + gc.platform.wordSize) next }

def addChunkToFreelist (start stop : Nat) : SecondPass :=
  let size := stop - start
  let pass := { pass with memory := update pass.memory start size }
  let pass :=
    if gc.platform.minObjectSize ≤ size then
      { gc.setLastNext pass start with last := some start }
    else
      pass
  { pass with
    largest := if pass.largest < size then size else pass.largest
    heapfree := pass.heapfree + size }

/-- The header once `HASHCODE_TAKEN_BIT` is cleared, `HAS_HASHCODE_BIT` set and the
grain added. `HAS_HASHCODE_BIT` is a negative `int`, so with 64-bit words all bits
above are set with it. -/
def grownHeader (hdr : Nat) : Nat :=
  hdr % 2 ^ 30 + (2 ^ (8 * gc.platform.wordSize) - 2 ^ 31) + objectGrain

def slide (memory : Memory) (target source size : Nat) : Memory := fun cell =>
  if target ≤ cell ∧ cell < target + size then memory (source + (cell - target)) else memory cell

def compactSlideBlock (memory : Memory) (blockAddr newAddr : Nat) : Memory × Bool :=
  let hdr := memory blockAddr
  let size := hdrSize hdr
  let memory := slide memory newAddr blockAddr size
  if hdrHashcodeTaken hdr then
    let memory := update memory (newAddr + size) (blockAddr + gc.headerSize)
    (update memory newAddr (gc.grownHeader (memory newAddr)), true)
  else
    (memory, false)

def markedPhase2 (hdr : Nat) : SecondPass :=
  if pass.newAddr ≠ pass.ptr then
    let (memory, grown) := gc.compactSlideBlock pass.memory pass.ptr pass.newAddr
    { pass with
      memory := memory
      ptr := pass.ptr + hdrSize hdr
      newAddr := (if grown then pass.newAddr + objectGrain else pass.newAddr) + hdrSize hdr }
  else
    { pass with
      ptr := pass.ptr + hdrSize hdr
      newAddr := pass.newAddr + hdrSize hdr }

def skipToConservativeRoot : SecondPass :=
  if gc.isConservativeRoot (pass.ptr + gc.headerSize) ∧ pass.newAddr ≠ pass.ptr then
    { gc.addChunkToFreelist pass pass.newAddr pass.ptr with newAddr := pass.ptr }
  else
    pass

def secondPassStep : SecondPass :=
  let hdr := pass.memory pass.ptr
  let ob := pass.ptr + gc.headerSize
  if hdrThreaded hdr then
    let pass := gc.skipToConservativeRoot pass
    let memory := gc.unthreadHeader pass.memory pass.ptr (pass.newAddr + gc.headerSize)
    gc.markedPhase2 { pass with memory } (memory pass.ptr)
  else if hdrAlloced hdr then
    if gc.marks ob ≠ 0 then
      gc.markedPhase2 (gc.skipToConservativeRoot pass) hdr
    else
      { pass with ptr := pass.ptr + hdrSize hdr }
  else
    { pass with ptr := pass.ptr + hdr }

end

def secondPass (memory : Memory) : SecondPass :=
  whileLoop (fun pass => pass.ptr < gc.limit) gc.secondPassStep (gc.limit - gc.base)
    { memory := memory
      ptr := gc.base
      newAddr := gc.base
      newlist := 0
      last := none
      largest := 0
      heapfree := 0 }

def finish (pass : SecondPass) : SecondPass :=
  let pass :=
    if pass.newAddr ≠ gc.limit then gc.addChunkToFreelist pass pass.newAddr gc.limit else pass
  gc.setLastNext pass 0

structure Compacted where
  memory : Memory
  reference : ObjectList Nat
  freelist : Nat
  largest : Nat
  heapfree : Nat

def doCompact (memory : Memory) (reference : ObjectList Nat) : Compacted :=
  let first := gc.firstPass memory reference
  let second := gc.finish (gc.secondPass (gc.threadReferenceList first.memory first.reference))
  { memory := second.memory
    reference := first.reference
    freelist := second.newlist
    largest := second.largest
    heapfree := second.heapfree }

end Compaction

end JamVM.Alloc
