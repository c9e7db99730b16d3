import Mathlib.Algebra.Order.Ring.Int
import Mathlib.Data.List.Range

/-! # Objects as the collector sees them

The heap is tiled by blocks. An allocated block holds an object behind its
header; what the collector reads of it is its class pointer, the references
among its contents and, for classes, loaders and throwables, the data the
virtual machine keeps with it. The class library is GNU Classpath.
-/

namespace JamVM.Alloc

abbrev Reference := Option Nat

/-! ## Sizes -/

def objectGrain : Nat := 8

structure Platform where
  wordSize : Nat
  isWord : wordSize = 4 ∨ wordSize = 8

namespace Platform

def headerSize (plat : Platform) : Nat := plat.wordSize

def objectSize (plat : Platform) : Nat := 2 * plat.wordSize

def minObjectSize (plat : Platform) : Nat :=
  (plat.objectSize + plat.headerSize + objectGrain - 1) / objectGrain * objectGrain

theorem headerSize_lt_minObjectSize (plat : Platform) : plat.headerSize < plat.minObjectSize := by
  rcases plat.isWord with word | word <;>
    simp [headerSize, minObjectSize, objectSize, objectGrain, word]

end Platform

/-! ## Classes -/

/-- A subclass of `Reference` inherits at most one of the flags
`SOFT_REFERENCE`, `WEAK_REFERENCE` and `PHANTOM_REFERENCE`. -/
inductive ReferenceKind
  | plain
  | soft
  | weak
  | phantom
  deriving DecidableEq

structure ClassFlags where
  classClass : Bool := false
  reference : Option ReferenceKind := none
  classLoader : Bool := false
  vmThread : Bool := false
  vmThrowable : Bool := false

inductive ClassState
  | loaded
  | linked
  | bad
  | initing
  | inited
  | array
  | prim
  deriving DecidableEq

def ClassState.isLinked : ClassState → Bool
  | .loaded => false
  | .linked | .bad | .initing | .inited | .array | .prim => true

structure FieldBlock where
  isStatic : Bool
  type : List Char
  staticValue : Reference

def FieldBlock.isStaticReference (field : FieldBlock) : Bool :=
  field.isStatic && (field.type.head? == some 'L' || field.type.head? == some '[')

/-- A constant pool entry. Entries that hold no reference are `other`. -/
inductive Constant
  | other
  | resolvedInvokeDynamic (appendices : List Reference)
  | resolvedClass (object : Reference)
  | resolvedString (object : Reference)
  | resolvedMethodType (object : Reference)
  | resolvedMethodHandle (object : Reference)
  | resolvedPolyMethod (appendix : Reference)

/-- The entry's references if its type is at least `CONSTANT_ResolvedString`, or
if it is a resolved `invokedynamic`. -/
def Constant.objects : Constant → List Reference
  | .other | .resolvedClass _ => []
  | .resolvedInvokeDynamic appendices => appendices
  | .resolvedString object | .resolvedMethodType object | .resolvedMethodHandle object
  | .resolvedPolyMethod object => [object]

/-- The entry's references if its type is at least `CONSTANT_ResolvedClass`, or if
it is a resolved `invokedynamic`. -/
def Constant.references : Constant → List Reference
  | .other => []
  | .resolvedInvokeDynamic appendices => appendices
  | .resolvedClass object | .resolvedString object | .resolvedMethodType object
  | .resolvedMethodHandle object | .resolvedPolyMethod object => [object]

structure ClassBlock where
  name : List Char
  flags : ClassFlags := {}
  state : ClassState := .loaded
  classLoader : Reference := none
  super : Reference := none
  interfaces : List Reference := []
  elementClass : Reference := none
  componentClass : Reference := none
  imethodTable : List Reference := []
  fields : List FieldBlock := []
  constantPool : List Constant := []
  refsOffsetsTable : List (Nat × Nat) := []

namespace ClassBlock

variable (cb : ClassBlock)

def isClasslibSpecial : Bool := cb.flags.vmThread || cb.flags.vmThrowable

def isSpecial : Bool :=
  cb.isClasslibSpecial || cb.flags.classClass || cb.flags.reference.isSome || cb.flags.classLoader

def isArray : Bool := cb.state == .array

def hasArrayName : Bool := cb.name[0]? == some '['

def hasReferenceElements : Bool := cb.name[1]? == some 'L' || cb.name[1]? == some '['

/-- The values of the static reference fields, which are set once the class is
linked. -/
def staticReferences : List Reference :=
  if cb.state.isLinked then
    (cb.fields.filter FieldBlock.isStaticReference).map FieldBlock.staticValue
  else
    []

def constantObjects : List Reference := cb.constantPool.flatMap Constant.objects

def constantReferences : List Reference := cb.constantPool.flatMap Constant.references

def referenceOffsets (wordSize : Nat) : List Nat :=
  cb.refsOffsetsTable.flatMap fun (start, stop) =>
    List.range' start ((stop - start + wordSize - 1) / wordSize) wordSize

end ClassBlock

def threadClassData (cb : ClassBlock) : List Reference :=
  cb.super :: cb.classLoader :: cb.interfaces ++
    (if cb.isArray then [cb.elementClass, cb.componentClass] else []) ++
    cb.imethodTable ++ cb.staticReferences ++ cb.constantReferences

/-! ## Objects and the heap -/

/-- `loaderTable` is the table of a class loader, `backtrace` the classes of the
methods in a throwable's stack trace, `field` the instance data by offset. -/
structure Object where
  classRef : Reference
  classBlock : Option ClassBlock := none
  loaderTable : Option (List Nat) := none
  backtrace : List Reference := []
  elements : List Reference := []
  field : Nat → Reference := fun _ => none

structure Block where
  size : Nat
  object : Option Object

structure Block.Valid (plat : Platform) (block : Block) : Prop where
  grain : objectGrain ∣ block.size
  positive : 0 < block.size
  allocated : block.object.isSome = true → plat.minObjectSize ≤ block.size

structure Heap (plat : Platform) where
  base : Nat
  blocks : List Block
  valid : ∀ block ∈ blocks, block.Valid plat

namespace Heap

variable {plat : Platform}

def objectFrom (plat : Platform) (object : Nat) : Nat → List Block → Option Object
  | _, [] => none
  | addr, block :: rest =>
    match block.object with
    | some found =>
      if object = addr + plat.headerSize then
        some found
      else
        objectFrom plat object (addr + block.size) rest
    | none => objectFrom plat object (addr + block.size) rest

def objectAt (heap : Heap plat) (object : Nat) : Option Object :=
  objectFrom plat object heap.base heap.blocks

def classBlock (heap : Heap plat) (addr : Nat) : Option ClassBlock :=
  (heap.objectAt addr).bind Object.classBlock

def limit (heap : Heap plat) : Nat := heap.base + (heap.blocks.map Block.size).sum

def isObject (heap : Heap plat) (word : Nat) : Bool :=
  heap.base < word && word < heap.limit && word % objectGrain == 0

theorem objectFrom_of_lt {blocks : List Block} (below : object < addr + plat.headerSize) :
    objectFrom plat object addr blocks = none := by
  induction blocks generalizing addr with
  | nil => rfl
  | cons block rest ih =>
    have later : objectFrom plat object (addr + block.size) rest = none := ih (by omega)
    rw [objectFrom, later]
    split
    · exact if_neg (by omega)
    · rfl

theorem objectFrom_of_le {blocks : List Block} (valid : ∀ block ∈ blocks, block.Valid plat)
    (above : addr + (blocks.map Block.size).sum ≤ object) :
    objectFrom plat object addr blocks = none := by
  induction blocks generalizing addr with
  | nil => rfl
  | cons block rest ih =>
    rw [List.map_cons, List.sum_cons] at above
    have later : objectFrom plat object (addr + block.size) rest = none :=
      ih (fun other mem => valid other (by simp [mem])) (by omega)
    rw [objectFrom, later]
    split
    · rename_i allocated
      have fits := (valid block (by simp)).allocated (by simp [allocated])
      have header := plat.headerSize_lt_minObjectSize
      exact if_neg (by omega)
    · rfl

end Heap

end JamVM.Alloc
