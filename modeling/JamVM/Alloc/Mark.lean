import JamVM.Foundation.Loop
import JamVM.Alloc.Object
import JamVM.Alloc.ObjectList

/-! # The mark phase

`doMark` marks the roots, scans the heap with a bounded mark stack until no
push is lost, and then marks what the finaliser thread still needs. Every
object has a two-bit mark.
-/

namespace JamVM.Alloc

abbrev Mark := Fin 4

instance (priority := 2000) neZero_four : NeZero 4 := ⟨by decide⟩

def phantomMark : Mark := 1

def finalizerMark : Mark := 2

def hardMark : Mark := 3

/-- Fixed properties of a build. The mark stack has `MARK_STACK_SIZE` entries in
every build; nothing below depends on the number. -/
structure Config where
  platform : Platform
  /-- The offset `ref_referent_offset` of the field `Reference.referent`. -/
  referentOffset : Nat
  markStackSize : Nat

/-- The variables of the mark phase: the mark bits, `mark_stack` with the last
object pushed at its head, `mark_stack_overflow`, `mark_scan_ptr` and the list
of conservative roots. -/
structure Marking where
  marks : Nat → Mark
  stack : List Nat
  overflow : Nat
  scanPtr : Nat
  conservativeRoots : List Nat

section
variable (cfg : Config) (heap : Heap cfg.platform) (soft : Bool)

namespace Marking

variable (marking : Marking)

def mark (object : Nat) (mark : Mark) : Marking :=
  { marking with
    marks := Function.update marking.marks object (marking.marks object ||| mark) }

def setMark (object : Nat) (mark : Mark) : Marking :=
  { marking with marks := Function.update marking.marks object mark }

/-- `MARK_AND_PUSH`. Objects that the heap scan has yet to reach are not
pushed. -/
def markAndPush (object : Nat) (mark : Mark) : Marking :=
  let marking := marking.setMark object mark
  if object < marking.scanPtr then
    if marking.stack.length = cfg.markStackSize then
      { marking with overflow := marking.overflow + 1 }
    else
      { marking with stack := object :: marking.stack }
  else
    marking

def markObject (reference : Reference) (mark : Mark) : Marking :=
  match reference with
  | none => marking
  | some object =>
    if mark > marking.marks object then marking.markAndPush cfg object mark else marking

def markReferences (references : List Reference) (mark : Mark) : Marking :=
  references.foldl (fun marking reference => marking.markObject cfg reference mark) marking

/-! ## Children -/

def markClassData (cb : ClassBlock) (mark : Mark) : Marking :=
  let marking := marking.markObject cfg cb.classLoader mark
  let marking := marking.markReferences cfg cb.staticReferences mark
  marking.markReferences cfg cb.constantObjects mark

end Marking

def loaderClasses (loader : Nat) (object : Object) : List Reference :=
  ((object.loaderTable.getD []).filter fun entry =>
    (heap.classBlock entry).bind ClassBlock.classLoader == some loader).map some

namespace Marking

variable (marking : Marking)

def markLoaderClasses (loader : Nat) (object : Object) (mark : Mark) : Marking :=
  marking.markReferences cfg (loaderClasses cfg heap loader object) mark

def markReferent (kind : ReferenceKind) (object : Object) (mark : Mark) : Marking :=
  let referent := object.field cfg.referentOffset
  match kind with
  | .weak => marking
  | .phantom => marking.markObject cfg referent phantomMark
  | .soft => marking.markObject cfg referent (if soft then mark else 0)
  | .plain => marking.markObject cfg referent mark

def markVMThrowable (cb : ClassBlock) (object : Object) (mark : Mark) : Marking :=
  if cb.flags.vmThrowable then marking.markReferences cfg object.backtrace mark else marking

def markSpecial (addr : Nat) (cb : ClassBlock) (object : Object) (mark : Mark) : Marking :=
  if cb.isSpecial then
    if cb.flags.classClass then
      match object.classBlock with
      | some data => marking.markClassData cfg data mark
      | none => marking
    else if cb.flags.classLoader then
      marking.markLoaderClasses cfg heap addr object mark
    else
      match cb.flags.reference with
      | some kind => marking.markReferent cfg soft kind object mark
      | none => marking.markVMThrowable cfg cb object mark
  else
    marking

def markChildren (addr : Nat) (mark : Mark) : Marking :=
  match heap.objectAt addr with
  | none => marking
  | some object =>
    match object.classRef, object.classRef.bind heap.classBlock with
    | some type, some cb =>
      let marking := marking.markObject cfg (some type) mark
      if cb.hasArrayName then
        if cb.hasReferenceElements then marking.markReferences cfg object.elements mark else marking
      else
        let marking := marking.markSpecial cfg heap soft addr cb object mark
        marking.markReferences cfg
          ((cb.referenceOffsets cfg.platform.wordSize).map object.field) mark
    | _, _ => marking

/-! ## Scanning -/

/-- A push raises a mark below the scan pointer, so three rounds for each
address are enough. -/
def markStackRounds : Nat := 3 * heap.limit + marking.stack.length

def popAndMark : Marking :=
  match marking.stack with
  | [] => marking
  | object :: rest =>
    { marking with stack := rest }.markChildren cfg heap soft object (marking.marks object)

def markStack : Marking :=
  whileLoop (fun marking => !marking.stack.isEmpty) (popAndMark cfg heap soft)
    (marking.markStackRounds cfg heap) marking

def scanBlock (addr : Nat) (block : Block) : Marking :=
  let marking := { marking with scanPtr := addr }
  let object := addr + cfg.platform.headerSize
  if block.object.isSome && marking.marks object != 0 then
    (marking.markChildren cfg heap soft object (marking.marks object)).markStack cfg heap soft
  else
    marking

def scanBlocks (marking : Marking) : Nat → List Block → Marking
  | addr, [] => { marking with scanPtr := addr }
  | addr, block :: rest =>
    (marking.scanBlock cfg heap soft addr block).scanBlocks (addr + block.size) rest

def scanHeap : Marking := marking.scanBlocks cfg heap soft heap.base heap.blocks

def scanAgain : Marking := { marking with overflow := 0 }.scanHeap cfg heap soft

def scanHeapAndMark : Marking :=
  whileLoop (fun marking => marking.overflow != 0) (scanAgain cfg heap soft)
    (3 * heap.limit + 1) (marking.scanAgain cfg heap soft)

def runMark (element : Nat) : Marking :=
  (marking.markAndPush cfg element finalizerMark).markStack cfg heap soft

end Marking

/-! ## Roots -/

/-- What `scanThread` reads of a thread: its `Thread` object, a pending exception,
the words of its C stack and, for each frame, the class of the method and the
words of the frame. -/
structure ThreadRoots where
  thread : Reference
  exception : Reference
  stack : List Nat
  frames : List (Reference × List Nat)

namespace Marking

variable (marking : Marking)

def addConservativeRoot (object : Nat) : Marking :=
  { marking with conservativeRoots := marking.conservativeRoots ++ [object] }

def markRoot (object : Reference) : Marking :=
  match object with
  | none => marking
  | some object => marking.mark object hardMark

def markConservativeRoot (object : Reference) : Marking :=
  match object with
  | none => marking
  | some object => (marking.mark object hardMark).addConservativeRoot object

def scanWords (words : List Nat) : Marking :=
  (words.filter heap.isObject).foldl
    (fun marking word => marking.markConservativeRoot (some word)) marking

def scanThread (thread : ThreadRoots) : Marking :=
  let marking := marking.markConservativeRoot thread.thread
  let marking := marking.markConservativeRoot thread.exception
  let marking := marking.scanWords cfg heap thread.stack
  thread.frames.foldl (fun marking (type, words) =>
      (marking.markConservativeRoot type).scanWords cfg heap words) marking

end Marking

/-! ## `doMark` -/

/-- The variables that `doMark` reads and writes besides the marks. The tables of
JNI references keep deleted entries as `NULL`. -/
structure Collector (platform : Platform) where
  heap : Heap platform
  oom : Reference
  bootClasses : List Nat
  primClasses : List Reference
  globalRefs : List Reference
  threads : List ThreadRoots
  hasFinaliser : List Nat
  runFinaliser : ObjectList Nat
  reference : ObjectList Nat
  weakGlobalRefs : List Reference
  clearedWeakRefs : List Reference

variable (gc : Collector cfg.platform)

def clearMarkBits : Marking where
  marks _ := 0
  stack := []
  overflow := 0
  scanPtr := 0
  conservativeRoots := []

def markRoots : Marking :=
  let marking := clearMarkBits.markRoot gc.oom
  let marking := (gc.bootClasses.map some).foldl Marking.markRoot marking
  let marking := gc.primClasses.foldl Marking.markRoot marking
  let marking := gc.globalRefs.foldl Marking.markConservativeRoot marking
  gc.threads.foldl (Marking.scanThread cfg gc.heap) marking

def markReachable : Marking := (markRoots cfg gc).scanHeapAndMark cfg gc.heap soft

/-- The finaliser queue after the unmarked objects of `has_finaliser` have been
added to it. -/
def queueFinalisers (marking : Marking) : ObjectList Nat :=
  (gc.hasFinaliser.filter fun object => marking.marks object != hardMark).foldl
    ObjectList.addToObjectList gc.runFinaliser

/-- The marks after the objects on the finaliser queue have been marked. The
slots visited are never `NULL`. -/
def markFinalisers (queue : ObjectList Nat) (marking : Marking) : Marking :=
  let marking := (queue.iterateObjectList.reduceOption).foldl
    (Marking.runMark cfg gc.heap soft) marking
  if marking.overflow != 0 then marking.scanHeapAndMark cfg gc.heap soft else marking

end

section
variable {platform : Platform}

def placeholder : Object where
  classRef := none

def placeholderFrom (platform : Platform) (object : Nat) : Nat → List Block → List Block
  | _, [] => []
  | addr, block :: rest =>
    if block.object.isSome && object == addr + platform.headerSize then
      if platform.minObjectSize < block.size then
        ⟨platform.minObjectSize, some placeholder⟩ ::
          ⟨block.size - platform.minObjectSize, none⟩ :: rest
      else
        ⟨block.size, some placeholder⟩ :: rest
    else
      block :: placeholderFrom platform object (addr + block.size) rest

theorem minObjectSize_valid (platform : Platform) :
    objectGrain ∣ platform.minObjectSize ∧ 0 < platform.minObjectSize := by
  rcases platform.isWord with word | word <;>
    simp [Platform.minObjectSize, Platform.objectSize, Platform.headerSize, objectGrain, word]

theorem placeholderFrom_valid (valid : ∀ block ∈ blocks, block.Valid platform) :
    ∀ block ∈ placeholderFrom platform object addr blocks, block.Valid platform := by
  induction blocks generalizing addr with
  | nil => simp [placeholderFrom]
  | cons head rest ih =>
    have headValid := valid head (by simp)
    have restValid : ∀ block ∈ rest, block.Valid platform :=
      fun block mem => valid block (by simp [mem])
    have minimal := minObjectSize_valid platform
    rw [placeholderFrom]
    split
    · split
      · rename_i larger
        simp only [List.mem_cons]
        rintro block (rfl | rfl | mem)
        · exact ⟨minimal.1, minimal.2, fun _ => le_rfl⟩
        · exact ⟨Nat.dvd_sub headValid.grain minimal.1, Nat.sub_pos_of_lt larger, nofun⟩
        · exact restValid block mem
      · rename_i matched _
        simp only [List.mem_cons]
        rintro block (rfl | mem)
        · exact ⟨headValid.grain, headValid.positive, fun _ => headValid.allocated (by simp_all)⟩
        · exact restValid block mem
    · simp only [List.mem_cons]
      rintro block (rfl | mem)
      · exact headValid
      · exact ih restValid block mem

def convertToPlaceholder (heap : Heap platform) (object : Nat) : Heap platform where
  base := heap.base
  blocks := placeholderFrom platform object heap.base heap.blocks
  valid := placeholderFrom_valid heap.valid

end

section
variable (cfg : Config)

def scanWeakGlobalRef (state : Collector cfg.platform × Marking) (reference : Reference) :
    Collector cfg.platform × Marking :=
  let (gc, marking) := state
  match reference with
  | none => ({ gc with weakGlobalRefs := gc.weakGlobalRefs ++ [none] }, marking)
  | some object =>
    if marking.marks object != 0 then
      ({ gc with weakGlobalRefs := gc.weakGlobalRefs ++ [some object] },
        marking.addConservativeRoot object)
    else
      ({ gc with
        heap := convertToPlaceholder gc.heap object
        weakGlobalRefs := gc.weakGlobalRefs ++ [none]
        clearedWeakRefs := gc.clearedWeakRefs ++ [some object] }, marking)

def scanJNIWeakGlobalRefs (gc : Collector cfg.platform) (marking : Marking) :
    Collector cfg.platform × Marking :=
  gc.weakGlobalRefs.foldl (scanWeakGlobalRef cfg) ({ gc with weakGlobalRefs := [] }, marking)

def markJNIClearedWeakRef (marking : Marking) (reference : Reference) : Marking :=
  match reference with
  | none => marking
  | some object => (marking.mark object finalizerMark).addConservativeRoot object

def markJNIClearedWeakRefs (references : List Reference) (marking : Marking) : Marking :=
  references.foldl markJNIClearedWeakRef marking

def doMark (gc : Collector cfg.platform) (soft : Bool) : Collector cfg.platform × Marking :=
  let marking := markReachable cfg soft gc
  let queue := queueFinalisers cfg gc marking
  let kept := gc.hasFinaliser.filter fun object => marking.marks object == hardMark
  let marking := markFinalisers cfg soft gc queue marking
  let gc := { gc with
    hasFinaliser := kept
    runFinaliser := queue
    reference := gc.reference.clearUnmarked fun object => marking.marks object == 0 }
  let (gc, marking) := scanJNIWeakGlobalRefs cfg gc marking
  (gc, markJNIClearedWeakRefs gc.clearedWeakRefs marking)

end

end JamVM.Alloc
