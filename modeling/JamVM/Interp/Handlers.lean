import JamVM.Interp.CacheDepth

/-! # Handlers with and without the stack cache

The opcode handlers that move operands, calculate with `int` and `long`, and compare. The
interpreter built with `USE_CACHE` has three of them for each opcode, one for each number of
operands in the cache registers; the other interpreter has one, which works on memory.
-/

namespace JamVM.Interp

open BitVec

/-- The size of `uintptr_t`, and the order of words if it is not that of a `long`. -/
inductive Architecture
  | bits32 (isBigEndian : Bool)
  | bits64
  deriving DecidableEq

namespace Architecture

def width : Architecture → Nat
  | bits32 _ => 32
  | bits64 => 64

/-- A `long` read at the address of two words, of which it takes only the first if it has
its size. -/
def readLong : (architecture : Architecture) →
    BitVec architecture.width → BitVec architecture.width → BitVec 64
  | bits32 false, first, second => (second : BitVec 32) ++ (first : BitVec 32)
  | bits32 true, first, second => (first : BitVec 32) ++ (second : BitVec 32)
  | bits64, first, _ => first

def firstWord : (architecture : Architecture) → BitVec 64 → BitVec architecture.width
  | bits32 false, value => value.extractLsb' 0 32
  | bits32 true, value => value.extractLsb' 32 32
  | bits64, value => value

def secondWord : (architecture : Architecture) → BitVec 64 → BitVec architecture.width →
    BitVec architecture.width
  | bits32 false, value, _ => value.extractLsb' 32 32
  | bits32 true, value, _ => value.extractLsb' 0 32
  | bits64, _, old => old

end Architecture

structure Build where
  architecture : Architecture
  checkIntdivOverflow : Bool
  checkLongdivOverflow : Bool
  double1Bits : BitVec 64

namespace Build

variable (build : Build)

abbrev Word : Type := BitVec build.architecture.width

variable {build}

def toInt (word : build.Word) : BitVec 32 := word.setWidth 32

def ofInt (value : BitVec 32) : build.Word := value.signExtend build.architecture.width

def ofUnsigned (value : BitVec 32) : build.Word := value.setWidth build.architecture.width

variable (build)

def intdivOverflow (dividend divisor : BitVec 32) : Bool :=
  build.checkIntdivOverflow && dividend == intMin 32 && divisor == -1

def longdivOverflow (dividend divisor : BitVec 64) : Bool :=
  build.checkLongdivOverflow && dividend == intMin 64 && divisor == -1

variable {build}

def intdiv (op : BitVec 32 → BitVec 32 → BitVec 32) (dividend divisor : build.Word) :
    build.Word :=
  let v1 := toInt dividend
  let v2 := toInt divisor
  ofInt (op v1 (if build.intdivOverflow v1 v2 then 1 else v2))

def shift (isUnsigned : Bool) (op : BitVec 32 → Nat → BitVec 32) (left right : build.Word) :
    build.Word :=
  let value := op (toInt left) (right &&& 0x1f).toNat
  if isUnsigned then ofUnsigned value else ofInt value

end Build

inductive ElementType
  | int
  | reference
  | char
  | unsignedShort
  | short
  | long
  deriving DecidableEq

def ElementType.bits (build : Build) : ElementType → Nat
  | int => 32
  | reference => build.architecture.width
  | char => 8
  | unsignedShort | short => 16
  | long => 64

def ElementType.toWord {build : Build} (type : ElementType) (value : BitVec (type.bits build)) :
    build.Word :=
  match type with
  | int | char | short => value.signExtend build.architecture.width
  | reference | unsignedShort | long => value.setWidth build.architecture.width

inductive Exception
  | arithmeticException
  | nullPointerException
  | arrayIndexOutOfBoundsException (index : BitVec 32)
  | arrayStoreException
  deriving DecidableEq

structure Arrays (build : Build) (Heap : Type u) where
  arrayLen : Heap → build.Word → build.Word
  load : Heap → build.Word → (type : ElementType) → BitVec 32 → BitVec (type.bits build)
  store : Heap → build.Word → (type : ElementType) → BitVec 32 → BitVec (type.bits build) → Heap
  arrayStoreCheck : Heap → build.Word → build.Word → Bool

namespace Arrays

variable {build : Build} {Heap : Type u} (arrays : Arrays build Heap)

def throws (heap : Heap) (array : build.Word) (index : BitVec 32) : Option Exception :=
  if array = 0 then
    some .nullPointerException
  else if arrays.arrayLen heap array ≤ Build.ofInt index then
    some (.arrayIndexOutOfBoundsException index)
  else
    none

def storeThrows (heap : Heap) (array : build.Word) (index : BitVec 32) (object : build.Word) :
    Option Exception :=
  match arrays.throws heap array index with
  | some exception => some exception
  | none =>
    if object ≠ 0 ∧ arrays.arrayStoreCheck heap array object = false then
      some .arrayStoreException
    else
      none

end Arrays

structure Operands (build : Build) where
  singleIndex : Nat
  signed : BitVec 32
  resolvedConstant : build.Word
  cpLong : BitVec 64
  iincDelta : BitVec 32

inductive Body (build : Build)
  | nop
  | push (value : build.Word)
  | load (index : Nat)
  | store (index : Nat)
  | pop1
  | pop2
  | dup
  | unaryMinus
  | binaryOp (op : BitVec 32 → BitVec 32 → BitVec 32)
  | intdivOp (op : BitVec 32 → BitVec 32 → BitVec 32)
  | shiftOp (isUnsigned : Bool) (op : BitVec 32 → Nat → BitVec 32)
  | ifIcmp (cond : BitVec 32 → BitVec 32 → Bool)
  | ifZero (cond : BitVec 32 → Bool)
  | iinc (index : Nat) (delta : BitVec 32)
  | pushLong (value : BitVec 64)
  | loadLong (index : Nat)
  | popLong (index : Nat)
  | arrayLoad (type : ElementType)
  | arrayLoadLong
  | arrayStore (type : ElementType)
  | arrayStoreReference
  | arrayStoreLong
  | dupX1
  | dupX2
  | dup2
  | dup2X1
  | dup2X2
  | swap
  | binaryOpLong (op : BitVec 64 → BitVec 64 → BitVec 64)
  | intdivOpLong (op : BitVec 64 → BitVec 64 → BitVec 64)
  | shiftOpLong (op : BitVec 64 → Nat → BitVec 64)
  | negLong
  | l2i
  | i2l
  | convert (conversion : build.Word → build.Word)
  | lcmp

/-- The handlers of an opcode, if it is one of those that only work on operands, local
variables and arrays. -/
def Opcode.body {build : Build} (operands : Operands build) : Opcode → Option (Body build)
  | .nop => some .nop
  | .iconstM1 => some (.push (Build.ofInt (-1)))
  | .iconst0 | .fconst0 | .aconstNull => some (.push 0)
  | .iconst1 => some (.push (Build.ofInt 1))
  | .iconst2 => some (.push (Build.ofInt 2))
  | .iconst3 => some (.push (Build.ofInt 3))
  | .iconst4 => some (.push (Build.ofInt 4))
  | .iconst5 => some (.push (Build.ofInt 5))
  | .fconst1 => some (.push (Build.ofInt 0x3f800000))
  | .fconst2 => some (.push (Build.ofInt 0x40000000))
  | .sipush | .bipush => some (.push (Build.ofInt operands.signed))
  | .ldc => some (.push operands.resolvedConstant)
  | .iload | .fload | .aload => some (.load operands.singleIndex)
  | .iload0 | .fload0 => some (.load 0)
  | .iload1 | .fload1 | .aload1 => some (.load 1)
  | .iload2 | .fload2 | .aload2 => some (.load 2)
  | .iload3 | .fload3 | .aload3 => some (.load 3)
  | .istore | .fstore | .astore => some (.store operands.singleIndex)
  | .istore0 | .astore0 | .fstore0 => some (.store 0)
  | .istore1 | .astore1 | .fstore1 => some (.store 1)
  | .istore2 | .astore2 | .fstore2 => some (.store 2)
  | .istore3 | .astore3 | .fstore3 => some (.store 3)
  | .iadd => some (.binaryOp (· + ·))
  | .isub => some (.binaryOp (· - ·))
  | .imul => some (.binaryOp (· * ·))
  | .idiv => some (.intdivOp sdiv)
  | .irem => some (.intdivOp srem)
  | .iand => some (.binaryOp (· &&& ·))
  | .ior => some (.binaryOp (· ||| ·))
  | .ixor => some (.binaryOp (· ^^^ ·))
  | .ineg => some .unaryMinus
  | .ishl => some (.shiftOp false BitVec.shiftLeft)
  | .ishr => some (.shiftOp false sshiftRight)
  | .iushr => some (.shiftOp true ushiftRight)
  | .ifIcmpeq | .ifAcmpeq => some (.ifIcmp (· == ·))
  | .ifIcmpne | .ifAcmpne => some (.ifIcmp (· != ·))
  | .ifIcmplt => some (.ifIcmp BitVec.slt)
  | .ifIcmpge => some (.ifIcmp fun left right => right.sle left)
  | .ifIcmpgt => some (.ifIcmp fun left right => right.slt left)
  | .ifIcmple => some (.ifIcmp BitVec.sle)
  | .ifne | .ifnonnull => some (.ifZero (· != 0))
  | .ifeq | .ifnull => some (.ifZero (· == 0))
  | .iflt => some (.ifZero (·.slt 0))
  | .ifge => some (.ifZero (BitVec.sle 0 ·))
  | .ifgt => some (.ifZero (BitVec.slt 0 ·))
  | .ifle => some (.ifZero (·.sle 0))
  | .iinc => some (.iinc operands.singleIndex operands.iincDelta)
  | .pop => some .pop1
  | .pop2 => some .pop2
  | .dup => some .dup
  | .lconst0 | .dconst0 => some (.pushLong 0)
  | .dconst1 => some (.pushLong build.double1Bits)
  | .lconst1 => some (.pushLong 1)
  | .ldc2W => some (.pushLong operands.cpLong)
  | .lload | .dload => some (.loadLong operands.singleIndex)
  | .lload0 | .dload0 => some (.loadLong 0)
  | .lload1 | .dload1 => some (.loadLong 1)
  | .lload2 | .dload2 => some (.loadLong 2)
  | .lload3 | .dload3 => some (.loadLong 3)
  | .lstore | .dstore => some (.popLong operands.singleIndex)
  | .lstore0 | .dstore0 => some (.popLong 0)
  | .lstore1 | .dstore1 => some (.popLong 1)
  | .lstore2 | .dstore2 => some (.popLong 2)
  | .lstore3 | .dstore3 => some (.popLong 3)
  | .iaload | .faload => some (.arrayLoad .int)
  | .aaload => some (.arrayLoad .reference)
  | .baload => some (.arrayLoad .char)
  | .caload => some (.arrayLoad .unsignedShort)
  | .saload => some (.arrayLoad .short)
  | .laload | .daload => some .arrayLoadLong
  | .iastore | .fastore => some (.arrayStore .int)
  | .bastore => some (.arrayStore .char)
  | .castore | .sastore => some (.arrayStore .short)
  | .aastore => some .arrayStoreReference
  | .lastore | .dastore => some .arrayStoreLong
  | .dupX1 => some .dupX1
  | .dupX2 => some .dupX2
  | .dup2 => some .dup2
  | .dup2X1 => some .dup2X1
  | .dup2X2 => some .dup2X2
  | .swap => some .swap
  | .ladd => some (.binaryOpLong (· + ·))
  | .lsub => some (.binaryOpLong (· - ·))
  | .lmul => some (.binaryOpLong (· * ·))
  | .land => some (.binaryOpLong (· &&& ·))
  | .lor => some (.binaryOpLong (· ||| ·))
  | .lxor => some (.binaryOpLong (· ^^^ ·))
  | .ldiv => some (.intdivOpLong sdiv)
  | .lrem => some (.intdivOpLong srem)
  | .lshl => some (.shiftOpLong BitVec.shiftLeft)
  | .lshr => some (.shiftOpLong sshiftRight)
  | .lushr => some (.shiftOpLong ushiftRight)
  | .lneg => some .negLong
  | .l2i => some .l2i
  | .i2l => some .i2l
  | .i2b => some (.convert fun word => (word.setWidth 8).signExtend build.architecture.width)
  | .i2c => some (.convert fun word => (word.setWidth 16).setWidth build.architecture.width)
  | .i2s => some (.convert fun word => (word.setWidth 16).signExtend build.architecture.width)
  | .lcmp => some .lcmp
  | _ => none

structure StackInstruction (build : Build) where
  opcode : Opcode
  operands : Operands build
  body : Body build
  isBody : opcode.body operands = some body

/-- What the handlers work on in memory. `branches` has the outcomes of the conditions, the
last first. -/
structure Machine (build : Build) (Heap : Type u) where
  stack : Int → build.Word
  ostack : Int
  lvars : Nat → build.Word
  heap : Heap
  branches : List Bool

namespace Machine

variable {build : Build} {Heap : Type u} (vm : Machine build Heap)

def word (offset : Int) : build.Word := vm.stack (vm.ostack + offset)

def setWord (offset : Int) (value : build.Word) : Machine build Heap :=
  { vm with stack := Function.update vm.stack (vm.ostack + offset) value }

def move (count : Int) : Machine build Heap := { vm with ostack := vm.ostack + count }

def push (value : build.Word) : Machine build Heap := (vm.setWord 0 value).move 1

def long (offset : Int) : BitVec 64 :=
  build.architecture.readLong (vm.word offset) (vm.word (offset + 1))

def setLong (offset : Int) (value : BitVec 64) : Machine build Heap :=
  let second := build.architecture.secondWord value (vm.word (offset + 1))
  (vm.setWord offset (build.architecture.firstWord value)).setWord (offset + 1) second

def pushLong (value : BitVec 64) : Machine build Heap := (vm.setLong 0 value).move 2

def setLvar (index : Nat) (value : build.Word) : Machine build Heap :=
  { vm with lvars := Function.update vm.lvars index value }

def lvarLong (index : Nat) : BitVec 64 :=
  build.architecture.readLong (vm.lvars index) (vm.lvars (index + 1))

def setLvarLong (index : Nat) (value : BitVec 64) : Machine build Heap :=
  let second := build.architecture.secondWord value (vm.lvars (index + 1))
  (vm.setLvar index (build.architecture.firstWord value)).setLvar (index + 1) second

def branch (taken : Bool) : Machine build Heap := { vm with branches := taken :: vm.branches }

def setHeap (heap : Heap) : Machine build Heap := { vm with heap := heap }

end Machine

def throwOr {α : Type u} (exception : Option Exception) (value : α) : Except Exception α :=
  match exception with
  | some exception => .error exception
  | none => .ok value

def zeroDivisorCheck {width : Nat} (value : BitVec width) : Option Exception :=
  if value = 0 then some .arithmeticException else none

def compareLong (v1 v2 : BitVec 64) : BitVec 32 :=
  if v1 = v2 then 0 else if v1.slt v2 then -1 else 1

def Build.longdiv (build : Build) (op : BitVec 64 → BitVec 64 → BitVec 64)
    (v1 v2 : BitVec 64) : BitVec 64 :=
  op v1 (if build.longdivOverflow v1 v2 then 1 else v2)

section
variable {build : Build} {Heap : Type u} (arrays : Arrays build Heap)

def Body.uncached (vm : Machine build Heap) : Body build → Except Exception (Machine build Heap)
  | nop => .ok vm
  | push value => .ok (vm.push value)
  | load index => .ok (vm.push (vm.lvars index))
  | store index =>
    let popped := vm.move (-1)
    .ok (popped.setLvar index (popped.word 0))
  | pop1 => .ok (vm.move (-1))
  | pop2 => .ok (vm.move (-2))
  | dup => .ok (vm.push (vm.word (-1)))
  | unaryMinus =>
    let popped := vm.move (-1)
    .ok (popped.push (Build.ofInt (-Build.toInt (popped.word 0))))
  | binaryOp op =>
    let popped := vm.move (-2)
    .ok (popped.push (Build.ofInt (op (Build.toInt (popped.word 0)) (Build.toInt (popped.word 1)))))
  | intdivOp op =>
    let popped := vm.move (-2)
    throwOr (zeroDivisorCheck (Build.toInt (vm.word (-1))))
      (popped.push (Build.intdiv op (popped.word 0) (popped.word 1)))
  | shiftOp isUnsigned op =>
    let popped := vm.move (-2)
    .ok (popped.push (Build.shift isUnsigned op (popped.word 0) (popped.word 1)))
  | ifIcmp cond =>
    let popped := vm.move (-2)
    .ok (popped.branch (cond (Build.toInt (popped.word 0)) (Build.toInt (popped.word 1))))
  | ifZero cond =>
    let popped := vm.move (-1)
    .ok (popped.branch (cond (Build.toInt (popped.word 0))))
  | iinc index delta => .ok (vm.setLvar index (vm.lvars index + Build.ofInt delta))
  | pushLong value => .ok (vm.pushLong value)
  | loadLong index => .ok (vm.pushLong (vm.lvarLong index))
  | popLong index =>
    let popped := vm.move (-2)
    .ok (popped.setLvarLong index (popped.long 0))
  | arrayLoad type =>
    let idx := Build.toInt (vm.word (-1))
    let array := vm.word (-2)
    throwOr (arrays.throws vm.heap array idx)
      ((vm.move (-2)).push (type.toWord (arrays.load vm.heap array type idx)))
  | arrayLoadLong =>
    let idx := Build.toInt (vm.word (-1))
    let array := vm.word (-2)
    throwOr (arrays.throws vm.heap array idx)
      ((vm.move (-2)).pushLong (arrays.load vm.heap array .long idx))
  | arrayStore type =>
    let val := Build.toInt (vm.word (-1))
    let idx := Build.toInt (vm.word (-2))
    let array := vm.word (-3)
    throwOr (arrays.throws vm.heap array idx) ((vm.move (-3)).setHeap
        (arrays.store vm.heap array type idx (val.setWidth (type.bits build))))
  | arrayStoreReference =>
    let obj := vm.word (-1)
    let idx := Build.toInt (vm.word (-2))
    let array := vm.word (-3)
    throwOr (arrays.storeThrows vm.heap array idx obj)
      ((vm.move (-3)).setHeap (arrays.store vm.heap array .reference idx obj))
  | arrayStoreLong =>
    let idx := Build.toInt (vm.word (-3))
    let array := vm.word (-4)
    let popped := vm.move (-4)
    throwOr (arrays.throws vm.heap array idx)
      (popped.setHeap (arrays.store vm.heap array .long idx (popped.long 2)))
  | dupX1 =>
    let word1 := vm.word (-1)
    let word2 := vm.word (-2)
    .ok (((vm.setWord (-2) word1).setWord (-1) word2).push word1)
  | dupX2 =>
    let word1 := vm.word (-1)
    let word2 := vm.word (-2)
    let word3 := vm.word (-3)
    .ok ((((vm.setWord (-3) word1).setWord (-2) word3).setWord (-1) word2).push word1)
  | dup2 =>
    let copied := vm.setWord 0 (vm.word (-2))
    .ok ((copied.setWord 1 (copied.word (-1))).move 2)
  | dup2X1 =>
    let word1 := vm.word (-1)
    let word2 := vm.word (-2)
    let word3 := vm.word (-3)
    .ok ((((((vm.setWord (-3) word2).setWord (-2) word1).setWord (-1) word3).setWord 0
      word2).setWord 1 word1).move 2)
  | dup2X2 =>
    let word1 := vm.word (-1)
    let word2 := vm.word (-2)
    let word3 := vm.word (-3)
    let word4 := vm.word (-4)
    .ok (((((((vm.setWord (-4) word2).setWord (-3) word1).setWord (-2) word4).setWord (-1)
      word3).setWord 0 word2).setWord 1 word1).move 2)
  | swap =>
    let word1 := vm.word (-1)
    let moved := vm.setWord (-1) (vm.word (-2))
    .ok (moved.setWord (-2) word1)
  | binaryOpLong op => .ok ((vm.setLong (-4) (op (vm.long (-4)) (vm.long (-2)))).move (-2))
  | intdivOpLong op =>
    let v1 := vm.long (-4)
    let v2 := vm.long (-2)
    throwOr (zeroDivisorCheck v2) ((vm.setLong (-4) (build.longdiv op v1 v2)).move (-2))
  | shiftOpLong op =>
    let popped := vm.move (-1)
    let shift := (popped.word 0 &&& 0x3f).toNat
    .ok (popped.setLong (-2) (op (popped.long (-2)) shift))
  | negLong => .ok (vm.setLong (-2) (-vm.long (-2)))
  | l2i =>
    let popped := vm.move (-2)
    .ok (popped.push (Build.ofInt ((popped.long 0).setWidth 32)))
  | i2l =>
    let popped := vm.move (-1)
    .ok (popped.pushLong ((Build.toInt (popped.word 0)).signExtend 64))
  | convert conversion =>
    let popped := vm.move (-1)
    .ok (popped.push (conversion (popped.word 0)))
  | lcmp =>
    let popped := vm.move (-4)
    .ok (popped.push (Build.ofInt (compareLong (popped.long 0) (popped.long 2))))

def runUncached (vm : Machine build Heap) :
    List (Body build) → Except Exception (Machine build Heap)
  | [] => .ok vm
  | body :: rest => (body.uncached arrays vm).bind (runUncached · rest)

end

structure Cached (build : Build) (Heap : Type u) where
  machine : Machine build Heap
  v1 : build.Word
  v2 : build.Word

namespace Cached

variable {build : Build} {Heap : Type u} (cached : Cached build Heap)

def long : BitVec 64 := build.architecture.readLong cached.v1 cached.v2

def setLong (value : BitVec 64) : Cached build Heap :=
  { cached with
    v1 := build.architecture.firstWord value
    v2 := build.architecture.secondWord value cached.v2 }

def push (level : Nat) (value : build.Word) : Cached build Heap × Nat :=
  match level with
  | 0 => ({ cached with v1 := value }, 1)
  | 1 => ({ cached with v2 := value }, 2)
  | _ => (⟨cached.machine.push cached.v1, cached.v2, value⟩, 2)

def top (level : Nat) : build.Word :=
  match level with
  | 0 => cached.machine.word (-1)
  | 1 => cached.v1
  | _ => cached.v2

def pop (level : Nat) : Cached build Heap × Nat :=
  match level with
  | 0 => ({ cached with machine := cached.machine.move (-1) }, 0)
  | 1 => (cached, 0)
  | _ => (cached, 1)

def twoOperands (level : Nat) : build.Word × build.Word × Machine build Heap :=
  match level with
  | 0 =>
    let popped := cached.machine.move (-2)
    (popped.word 0, popped.word 1, popped)
  | 1 =>
    let popped := cached.machine.move (-1)
    (popped.word 0, cached.v1, popped)
  | _ => (cached.v1, cached.v2, cached.machine)

def fill (level : Nat) : Cached build Heap :=
  match level with
  | 0 =>
    let popped := cached.machine.move (-1)
    let again := popped.move (-1)
    ⟨again, again.word 0, popped.word 0⟩
  | 1 =>
    let popped := cached.machine.move (-1)
    ⟨popped, popped.word 0, cached.v1⟩
  | _ => cached

def spill (level : Nat) : Cached build Heap :=
  match level with
  | 0 => cached
  | 1 => { cached with machine := cached.machine.push cached.v1 }
  | _ =>
    { cached with
      machine := (cached.machine.push cached.v1).push cached.v2
      v1 := cached.v2 }

def withMachine (vm : Machine build Heap) : Cached build Heap := { cached with machine := vm }

end Cached

section
variable {build : Build} {Heap : Type u} (arrays : Arrays build Heap)

/-- The handlers of the interpreter built with `USE_CACHE`, with the level that is
dispatched. -/
def Body.cached (level : Nat) (cached : Cached build Heap) :
    Body build → Except Exception (Cached build Heap × Nat)
  | nop => .ok (cached.spill level, 0)
  | push value => .ok (cached.push level value)
  | load index => .ok (cached.push level (cached.machine.lvars index))
  | store index =>
    let (popped, next) := cached.pop level
    .ok (popped.withMachine (popped.machine.setLvar index (cached.top level)), next)
  | pop1 => .ok (cached.pop level)
  | pop2 => .ok (cached.withMachine (cached.machine.move (-(2 - level))), 0)
  | dup => .ok (cached.push level (cached.top level))
  | unaryMinus =>
    let (popped, next) := cached.pop level
    .ok (popped.push next (Build.ofInt (-Build.toInt (cached.top level))))
  | binaryOp op =>
    let (left, right, popped) := cached.twoOperands level
    .ok ((cached.withMachine popped).push 0
      (Build.ofInt (op (Build.toInt left) (Build.toInt right))))
  | intdivOp op =>
    let (left, right, popped) := cached.twoOperands level
    throwOr (zeroDivisorCheck (Build.toInt (cached.top level)))
      ((cached.withMachine popped).push 0 (Build.intdiv op left right))
  | shiftOp isUnsigned op =>
    let (left, right, popped) := cached.twoOperands level
    .ok ((cached.withMachine popped).push 0 (Build.shift isUnsigned op left right))
  | ifIcmp cond =>
    let (left, right, popped) := cached.twoOperands level
    .ok (cached.withMachine (popped.branch (cond (Build.toInt left) (Build.toInt right))), 0)
  | ifZero cond =>
    let popped := match level with
      | 0 => cached.machine.move (-1)
      | 1 => cached.machine
      | _ => cached.machine.push cached.v1
    .ok (cached.withMachine (popped.branch (cond (Build.toInt (cached.top level)))), 0)
  | iinc index delta =>
    .ok (cached.withMachine (cached.machine.setLvar index
      (cached.machine.lvars index + Build.ofInt delta)), level)
  | pushLong value => .ok ((cached.spill level).setLong value, 2)
  | loadLong index =>
    let spilled := cached.spill level
    .ok (spilled.setLong (spilled.machine.lvarLong index), 2)
  | popLong index =>
    let filled := cached.fill level
    .ok (filled.withMachine (filled.machine.setLvarLong index filled.long), 0)
  | arrayLoad type =>
    let filled := cached.fill level
    let idx := Build.toInt filled.v2
    let array := filled.v1
    let heap := filled.machine.heap
    throwOr (arrays.throws heap array idx)
      (filled.push 0 (type.toWord (arrays.load heap array type idx)))
  | arrayLoadLong =>
    let filled := cached.fill level
    let idx := Build.toInt filled.v2
    let array := filled.v1
    let heap := filled.machine.heap
    throwOr (arrays.throws heap array idx) (filled.setLong (arrays.load heap array .long idx), 2)
  | arrayStore type =>
    let filled := cached.fill level
    let val := Build.toInt filled.v2
    let idx := Build.toInt filled.v1
    let popped := filled.machine.move (-1)
    let array := popped.word 0
    throwOr (arrays.throws popped.heap array idx) (filled.withMachine (popped.setHeap
        (arrays.store popped.heap array type idx (val.setWidth (type.bits build)))), 0)
  | arrayStoreReference =>
    let filled := cached.fill level
    let obj := filled.v2
    let idx := Build.toInt filled.v1
    let popped := filled.machine.move (-1)
    let array := popped.word 0
    throwOr (arrays.storeThrows popped.heap array idx obj) (filled.withMachine (popped.setHeap
        (arrays.store popped.heap array .reference idx obj)), 0)
  | arrayStoreLong =>
    let filled := cached.fill level
    let idx := Build.toInt (filled.machine.word (-1))
    let array := filled.machine.word (-2)
    let popped := filled.machine.move (-2)
    throwOr (arrays.throws popped.heap array idx) (filled.withMachine (popped.setHeap
        (arrays.store popped.heap array .long idx filled.long)), 0)
  | dupX1 =>
    let filled := cached.fill level
    .ok (filled.withMachine (filled.machine.push filled.v2), 2)
  | dupX2 =>
    let filled := cached.fill level
    let copied := filled.machine.setWord 0 (filled.machine.word (-1))
    .ok (filled.withMachine ((copied.setWord (-1) filled.v2).move 1), 2)
  | dup2 =>
    let filled := cached.fill level
    .ok (filled.withMachine ((filled.machine.push filled.v1).push filled.v2), 2)
  | dup2X1 =>
    let filled := cached.fill level
    let first := filled.machine.setWord 0 filled.v2
    let second := first.setWord 1 (first.word (-1))
    .ok (filled.withMachine ((second.setWord (-1) filled.v1).move 2), 2)
  | dup2X2 =>
    let filled := cached.fill level
    let first := filled.machine.setWord 0 (filled.machine.word (-2))
    let second := first.setWord 1 (first.word (-1))
    .ok (filled.withMachine (((second.setWord (-2) filled.v1).setWord (-1) filled.v2).move 2), 2)
  | swap =>
    let filled := cached.fill level
    .ok ({ filled with v1 := filled.v2, v2 := filled.v1 }, 2)
  | binaryOpLong op =>
    let filled := cached.fill level
    let popped := filled.machine.move (-2)
    .ok ((filled.withMachine popped).setLong (op (popped.long 0) filled.long), 2)
  | intdivOpLong op =>
    let filled := cached.fill level
    let popped := filled.machine.move (-2)
    throwOr (zeroDivisorCheck filled.long)
      ((filled.withMachine popped).setLong (build.longdiv op (popped.long 0) filled.long), 2)
  | shiftOpLong op =>
    let filled := cached.fill level
    let shift := (filled.v2 &&& 0x3f).toNat
    let popped := filled.machine.move (-1)
    let shifted : Cached build Heap := ⟨popped, popped.word 0, filled.v1⟩
    .ok (shifted.setLong (op shifted.long shift), 2)
  | negLong =>
    let filled := cached.fill level
    .ok (filled.setLong (-filled.long), 2)
  | l2i =>
    let filled := cached.fill level
    .ok (filled.push 0 (Build.ofInt (filled.long.setWidth 32)))
  | i2l =>
    let spilled := cached.spill level
    let popped := spilled.machine.move (-1)
    .ok ((spilled.withMachine popped).setLong ((Build.toInt (popped.word 0)).signExtend 64), 2)
  | convert conversion =>
    let spilled := cached.spill level
    let popped := spilled.machine.move (-1)
    .ok ((spilled.withMachine popped).push 0 (conversion (popped.word 0)))
  | lcmp =>
    let filled := cached.fill level
    let popped := filled.machine.move (-2)
    .ok ((filled.withMachine popped).push 0 (Build.ofInt (compareLong (popped.long 0) filled.long)))

def runCached (level : Nat) (cached : Cached build Heap) :
    List (Body build) → Except Exception (Cached build Heap × Nat)
  | [] => .ok (cached, level)
  | body :: rest =>
    (body.cached arrays level cached).bind fun (next, level) => runCached level next rest

end

end JamVM.Interp
