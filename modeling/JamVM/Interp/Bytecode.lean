import Mathlib.Algebra.Order.Ring.Int

/-! # Bytecode as the translator reads it

The switch of `prepare`: the opcode and the operand that an instruction is rewritten to,
its length, where it goes, and how it changes the number of operands in the stack cache.
-/

namespace JamVM.Interp

/-- The opcodes of class files in the order of their numbers, and those that only the
virtual machine writes. -/
inductive Opcode
  | nop | aconstNull | iconstM1 | iconst0 | iconst1 | iconst2 | iconst3 | iconst4 | iconst5
  | lconst0 | lconst1 | fconst0 | fconst1 | fconst2 | dconst0 | dconst1 | bipush | sipush | ldc
  | ldcW | ldc2W | iload | lload | fload | dload | aload | iload0 | iload1 | iload2 | iload3
  | lload0 | lload1 | lload2 | lload3 | fload0 | fload1 | fload2 | fload3 | dload0 | dload1
  | dload2 | dload3 | aload0 | aload1 | aload2 | aload3 | iaload | laload | faload | daload
  | aaload | baload | caload | saload | istore | lstore | fstore | dstore | astore | istore0
  | istore1 | istore2 | istore3 | lstore0 | lstore1 | lstore2 | lstore3 | fstore0 | fstore1
  | fstore2 | fstore3 | dstore0 | dstore1 | dstore2 | dstore3 | astore0 | astore1 | astore2
  | astore3 | iastore | lastore | fastore | dastore | aastore | bastore | castore | sastore | pop
  | pop2 | dup | dupX1 | dupX2 | dup2 | dup2X1 | dup2X2 | swap | iadd | ladd | fadd | dadd | isub
  | lsub | fsub | dsub | imul | lmul | fmul | dmul | idiv | ldiv | fdiv | ddiv | irem | lrem
  | frem | drem | ineg | lneg | fneg | dneg | ishl | lshl | ishr | lshr | iushr | lushr | iand
  | land | ior | lor | ixor | lxor | iinc | i2l | i2f | i2d | l2i | l2f | l2d | f2i | f2l | f2d
  | d2i | d2l | d2f | i2b | i2c | i2s | lcmp | fcmpl | fcmpg | dcmpl | dcmpg | ifeq | ifne | iflt
  | ifge | ifgt | ifle | ifIcmpeq | ifIcmpne | ifIcmplt | ifIcmpge | ifIcmpgt | ifIcmple
  | ifAcmpeq | ifAcmpne | goto | jsr | ret | tableswitch | lookupswitch | ireturn | lreturn
  | freturn | dreturn | areturn | return_ | getstatic | putstatic | getfield | putfield
  | invokevirtual | invokespecial | invokestatic | invokeinterface | invokedynamic | new_
  | newarray | anewarray | arraylength | athrow | checkcast | instanceof | monitorenter
  | monitorexit | wide | multianewarray | ifnull | ifnonnull | gotoW | jsrW | getfieldThisRef
  | mirandaBridge | abstractMethodError | getfieldThis
  deriving DecidableEq

namespace Opcode

def standard : List Opcode :=
  [.nop, .aconstNull, .iconstM1, .iconst0, .iconst1, .iconst2, .iconst3, .iconst4, .iconst5,
   .lconst0, .lconst1, .fconst0, .fconst1, .fconst2, .dconst0, .dconst1, .bipush, .sipush,
   .ldc, .ldcW, .ldc2W, .iload, .lload, .fload, .dload, .aload, .iload0, .iload1, .iload2,
   .iload3, .lload0, .lload1, .lload2, .lload3, .fload0, .fload1, .fload2, .fload3, .dload0,
   .dload1, .dload2, .dload3, .aload0, .aload1, .aload2, .aload3, .iaload, .laload, .faload,
   .daload, .aaload, .baload, .caload, .saload, .istore, .lstore, .fstore, .dstore, .astore,
   .istore0, .istore1, .istore2, .istore3, .lstore0, .lstore1, .lstore2, .lstore3, .fstore0,
   .fstore1, .fstore2, .fstore3, .dstore0, .dstore1, .dstore2, .dstore3, .astore0, .astore1,
   .astore2, .astore3, .iastore, .lastore, .fastore, .dastore, .aastore, .bastore, .castore,
   .sastore, .pop, .pop2, .dup, .dupX1, .dupX2, .dup2, .dup2X1, .dup2X2, .swap, .iadd, .ladd,
   .fadd, .dadd, .isub, .lsub, .fsub, .dsub, .imul, .lmul, .fmul, .dmul, .idiv, .ldiv, .fdiv,
   .ddiv, .irem, .lrem, .frem, .drem, .ineg, .lneg, .fneg, .dneg, .ishl, .lshl, .ishr, .lshr,
   .iushr, .lushr, .iand, .land, .ior, .lor, .ixor, .lxor, .iinc, .i2l, .i2f, .i2d, .l2i, .l2f,
   .l2d, .f2i, .f2l, .f2d, .d2i, .d2l, .d2f, .i2b, .i2c, .i2s, .lcmp, .fcmpl, .fcmpg, .dcmpl,
   .dcmpg, .ifeq, .ifne, .iflt, .ifge, .ifgt, .ifle, .ifIcmpeq, .ifIcmpne, .ifIcmplt,
   .ifIcmpge, .ifIcmpgt, .ifIcmple, .ifAcmpeq, .ifAcmpne, .goto, .jsr, .ret, .tableswitch,
   .lookupswitch, .ireturn, .lreturn, .freturn, .dreturn, .areturn, .return_, .getstatic,
   .putstatic, .getfield, .putfield, .invokevirtual, .invokespecial, .invokestatic,
   .invokeinterface, .invokedynamic, .new_, .newarray, .anewarray, .arraylength, .athrow,
   .checkcast, .instanceof, .monitorenter, .monitorexit, .wide, .multianewarray, .ifnull,
   .ifnonnull, .gotoW, .jsrW]

def ofByte (byte : Nat) : Option Opcode :=
  if byte = 222 then some mirandaBridge
  else if byte = 223 then some abstractMethodError
  else standard[byte]?

def toByte (opcode : Opcode) : Nat := standard.idxOf opcode

end Opcode

inductive Effect
  | push
  | two
  | clear
  | pop
  | negate
  | one
  | keep
  | getStatic (isLong : Bool)
  | putStatic (isLong : Bool)
  | getField (isLong : Bool)

def Effect.apply : Effect → Nat → Nat
  | .push, cache => if cache < 2 then cache + 1 else cache
  | .two, _ => 2
  | .clear, _ => 0
  | .pop, cache => if cache > 0 then cache - 1 else cache
  | .negate, cache => if cache = 2 then 2 else 1
  | .one, _ => 1
  | .keep, cache => cache
  | .getStatic isLong, cache => if cache > 0 || isLong then 2 else 1
  | .putStatic isLong, cache => if cache < 2 || isLong then 0 else 1
  | .getField isLong, cache => if cache = 2 || isLong then 2 else 1

/-- The operand of a prepared instruction. An index of the new code is the value that the
map has for the destination, if it has been set. -/
inductive Operand
  | value (i : Int)
  | pair (i1 i2 : Int)
  | rewrite (u1 u2 cache : Nat)
  | target (index : Option Int)
  | switchTable (low high : Int) (deflt : Option Int) (entries : List (Option Int))
  | lookupTable (deflt : Option Int) (entries : List (Int × Option Int))
  deriving DecidableEq

inductive Flow
  | next
  | exit
  | branch (dest : Nat)
  | goto (dest : Nat)
  | jsr (dest : Nat)
  | tableSwitch (low high : Int) (deflt : Nat) (entries : List Nat)
  | lookupSwitch (deflt : Nat) (entries : List (Int × Nat))

namespace Flow

def targets : Flow → List Nat
  | .next | .exit => []
  | .branch dest | .goto dest | .jsr dest => [dest]
  | .tableSwitch _ _ deflt entries => deflt :: entries
  | .lookupSwitch deflt entries => deflt :: entries.map Prod.snd

end Flow

structure Instruction where
  opcode : Opcode
  effect : Effect
  length : Nat
  flow : Flow
  operand : Nat → Operand

inductive FieldType
  | single
  | reference
  | long
  deriving DecidableEq

structure FieldBlock where
  type : FieldType
  offset : Nat

structure Method where
  code : List Nat
  isStatic : Bool
  handlers : List Nat
  peekIsFieldLong : Nat → Bool

namespace Method

variable (method : Method)

def codeLen : Nat := method.code.length

def byte (pos : Nat) : Nat := method.code.getD pos 0

def signed (bits value : Nat) : Int := if value < 2 ^ (bits - 1) then value else value - 2 ^ bits

section
variable (pc : Nat)

def readU1Op : Nat := method.byte (pc + 1)

def readU2Op : Nat := method.byte (pc + 1) * 2 ^ 8 + method.byte (pc + 2)

def readS1Op : Int := signed 8 (method.readU1Op pc)

def readS2Op : Int := signed 16 (method.readU2Op pc)

def word (pos : Nat) : Int :=
  signed 32 (method.byte pos * 2 ^ 24 + method.byte (pos + 1) * 2 ^ 16 +
    method.byte (pos + 2) * 2 ^ 8 + method.byte (pos + 3))

def readS4Op : Int := method.word (pc + 1)

/-- A destination outside the code is outside the arrays of `prepare`. -/
def destination (delta : Int) : Option Nat :=
  let dest := pc + delta
  if 0 ≤ dest ∧ dest < method.codeLen then some dest.toNat else none

def alignedPc : Nat := (pc + 4) / 4 * 4

def rewriteOperand (index : Nat) (opcode : Opcode) (cache : Nat) : Operand :=
  .rewrite index opcode.toByte cache

def tableSwitch : Option Instruction := do
  let aligned := alignedPc pc
  let low := method.word (aligned + 4)
  let high := method.word (aligned + 8)
  let count := (high - low + 1).toNat
  let deflt ← method.destination pc (method.word aligned)
  let entries ← (List.range count).mapM fun entry =>
    method.destination pc (method.word (aligned + 4 * (3 + entry)))
  some ⟨.tableswitch, .clear, aligned + 4 * (3 + count) - pc,
    .tableSwitch low high deflt entries, fun _ => .value 0⟩

def lookupSwitch : Option Instruction := do
  let aligned := alignedPc pc
  let npairs := (method.word (aligned + 4)).toNat
  let deflt ← method.destination pc (method.word aligned)
  let entries ← (List.range npairs).mapM fun entry => do
    let dest ← method.destination pc (method.word (aligned + 4 * (3 + 2 * entry)))
    some (method.word (aligned + 4 * (2 + 2 * entry)), dest)
  some ⟨.lookupswitch, .clear, aligned + 4 * (2 + 2 * npairs) - pc,
    .lookupSwitch deflt entries, fun _ => .value 0⟩

/-- The instruction after `wide`. With any other opcode `prepare` stays where it is. -/
def wide : Option Instruction := do
  let opcode ← Opcode.ofByte (method.byte (pc + 1))
  let operand := fun _ => Operand.value (method.readU2Op (pc + 1))
  match opcode with
  | .iload | .fload | .aload => some ⟨opcode, .push, 4, .next, operand⟩
  | .lload | .dload => some ⟨opcode, .two, 4, .next, operand⟩
  | .istore | .fstore | .astore => some ⟨opcode, .pop, 4, .next, operand⟩
  | .lstore | .dstore => some ⟨opcode, .clear, 4, .next, operand⟩
  | .ret => some ⟨opcode, .clear, 4, .exit, operand⟩
  | .iinc => some ⟨opcode, .keep, 6, .next,
      fun _ => .pair (method.readU2Op (pc + 1)) (method.readS2Op (pc + 3))⟩
  | _ => some ⟨opcode, .keep, 0, .next, fun _ => .value 0⟩

def decode (opcode : Opcode) : Option Instruction :=
  let none_ := fun (_ : Nat) => Operand.value 0
  match opcode with
  | .sipush => some ⟨opcode, .push, 3, .next, fun _ => .value (method.readS2Op pc)⟩
  | .ldcW => some ⟨.ldc, .push, 3, .next, rewriteOperand (method.readU2Op pc) opcode⟩
  | .ldc2W => some ⟨opcode, .two, 3, .next, fun _ => .value (method.readU2Op pc)⟩
  | .ldc => some ⟨opcode, .push, 2, .next, rewriteOperand (method.readU1Op pc) opcode⟩
  | .bipush => some ⟨opcode, .push, 2, .next, fun _ => .value (method.readS1Op pc)⟩
  | .iload | .fload | .aload => some ⟨opcode, .push, 2, .next, fun _ => .value (method.readU1Op pc)⟩
  | .lload | .dload => some ⟨opcode, .two, 2, .next, fun _ => .value (method.readU1Op pc)⟩
  | .return_ | .ireturn | .areturn | .freturn | .lreturn | .dreturn | .athrow =>
    some ⟨opcode, .clear, 1, .exit, none_⟩
  | .aconstNull | .iconstM1 | .iconst0 | .fconst0 | .iconst1 | .iconst2 | .iconst3 | .iconst4
  | .iconst5 | .fconst1 | .fconst2 | .iload0 | .fload0 | .iload1 | .fload1 | .aload1 | .iload2
  | .fload2 | .aload2 | .iload3 | .fload3 | .aload3 | .dup => some ⟨opcode, .push, 1, .next, none_⟩
  | .lconst0 | .dconst0 | .dconst1 | .lconst1 | .lload0 | .dload0 | .lload1 | .dload1 | .lload2
  | .dload2 | .lload3 | .dload3 | .laload | .daload | .dupX1 | .dupX2 | .dup2 | .dup2X1 | .dup2X2
  | .swap | .ladd | .lsub | .lmul | .ldiv | .lrem | .land | .lor | .lxor | .lshl | .lshr | .lushr
  | .f2l | .d2l | .lneg | .i2l => some ⟨opcode, .two, 1, .next, none_⟩
  | .nop | .lstore0 | .dstore0 | .lstore1 | .dstore1 | .lstore2 | .dstore2 | .lstore3 | .dstore3
  | .iastore | .fastore | .aastore | .lastore | .dastore | .bastore | .castore | .sastore | .pop2
  | .fadd | .dadd | .fsub | .dsub | .fmul | .dmul | .fdiv | .ddiv | .i2f | .i2d | .l2f | .l2d
  | .f2d | .d2f | .frem | .drem | .fneg | .dneg | .monitorenter | .monitorexit =>
    some ⟨opcode, .clear, 1, .next, none_⟩
  | .abstractMethodError | .mirandaBridge => some ⟨opcode, .clear, 1, .exit, none_⟩
  | .istore0 | .astore0 | .fstore0 | .istore1 | .astore1 | .fstore1 | .istore2 | .astore2
  | .fstore2 | .istore3 | .astore3 | .fstore3 | .pop => some ⟨opcode, .pop, 1, .next, none_⟩
  | .ineg => some ⟨opcode, .negate, 1, .next, none_⟩
  | .iaload | .aaload | .faload | .baload | .caload | .saload | .iadd | .imul | .isub | .idiv
  | .irem | .iand | .ior | .ixor | .f2i | .d2i | .i2b | .i2c | .i2s | .ishl | .ishr | .iushr
  | .lcmp | .dcmpg | .dcmpl | .fcmpg | .fcmpl | .arraylength | .l2i =>
    some ⟨opcode, .one, 1, .next, none_⟩
  | .lstore | .dstore => some ⟨opcode, .clear, 2, .next, fun _ => .value (method.readU1Op pc)⟩
  | .istore | .fstore | .astore =>
    some ⟨opcode, .pop, 2, .next, fun _ => .value (method.readU1Op pc)⟩
  | .iinc => some ⟨opcode, .keep, 3, .next,
      fun _ => .pair (method.readU1Op pc) (method.readS1Op (pc + 1))⟩
  | .ifeq | .ifnull | .ifne | .ifnonnull | .iflt | .ifge | .ifgt | .ifle | .ifAcmpeq | .ifIcmpeq
  | .ifAcmpne | .ifIcmpne | .ifIcmplt | .ifIcmpge | .ifIcmpgt | .ifIcmple => do
      let dest ← method.destination pc (method.readS2Op pc)
      some ⟨opcode, .clear, 3, .branch dest, none_⟩
  | .invokevirtual | .invokespecial | .invokestatic | .checkcast | .instanceof | .putfield =>
    some ⟨opcode, .clear, 3, .next, rewriteOperand (method.readU2Op pc) opcode⟩
  | .goto => do
      let dest ← method.destination pc (method.readS2Op pc)
      some ⟨.goto, .clear, 3, .goto dest, none_⟩
  | .gotoW => do
      let dest ← method.destination pc (method.readS4Op pc)
      some ⟨.goto, .clear, 5, .goto dest, none_⟩
  | .tableswitch => method.tableSwitch pc
  | .lookupswitch => method.lookupSwitch pc
  | .getstatic =>
    let index := method.readU2Op pc
    some ⟨opcode, .getStatic (method.peekIsFieldLong index), 3, .next, rewriteOperand index opcode⟩
  | .putstatic =>
    let index := method.readU2Op pc
    some ⟨opcode, .putStatic (method.peekIsFieldLong index), 3, .next, rewriteOperand index opcode⟩
  | .getfield =>
    let index := method.readU2Op pc
    some ⟨opcode, .getField (method.peekIsFieldLong index), 3, .next, rewriteOperand index opcode⟩
  | .invokeinterface | .invokedynamic =>
    some ⟨opcode, .clear, 5, .next, rewriteOperand (method.readU2Op pc) opcode⟩
  | .jsr => do
      let dest ← method.destination pc (method.readS2Op pc)
      some ⟨.jsr, .clear, 3, .jsr dest, none_⟩
  | .jsrW => do
      let dest ← method.destination pc (method.readS4Op pc)
      some ⟨.jsr, .clear, 5, .jsr dest, none_⟩
  | .ret => some ⟨opcode, .clear, 2, .exit, fun _ => .value (method.readU1Op pc)⟩
  | .newarray => some ⟨opcode, .one, 2, .next, fun _ => .value (method.readU1Op pc)⟩
  | .new_ | .anewarray => some ⟨opcode, .one, 3, .next, rewriteOperand (method.readU2Op pc) opcode⟩
  | .multianewarray => some ⟨opcode, .one, 4, .next,
      fun cache => .rewrite (method.readU2Op pc) (method.readU1Op (pc + 2)) cache⟩
  | .wide => method.wide pc
  | .aload0 => some ⟨.iload0, .push, 1, .next, none_⟩
  | .getfieldThis | .getfieldThisRef => none

end

/-- The field that `aload_0` reads together with the `getfield` after it. -/
def fieldOfThis (resolveField : Nat → Option FieldBlock) (pc : Nat) : Option FieldBlock :=
  if Opcode.ofByte (method.byte (pc + 1)) = some .getfield ∧ method.isStatic = false then
    (resolveField (method.readU2Op (pc + 1))).filter fun field => field.type ≠ .long
  else
    none

/-- The instruction that is made at a position. An `aload_0` and the `getfield` after it
make one instruction. -/
def fetch (resolveField : Nat → Option FieldBlock) (pc : Nat) : Option Instruction := do
  let opcode ← Opcode.ofByte (method.byte pc)
  match if opcode = .aload0 then method.fieldOfThis resolveField pc else none with
  | some field =>
    let opcode := if field.type = .reference then .getfieldThisRef else .getfieldThis
    some ⟨opcode, .push, 4, .next, fun _ => .value field.offset⟩
  | none => method.decode pc opcode

def bytecode (pc : Nat) : Option Instruction :=
  (Opcode.ofByte (method.byte pc)).bind (method.decode pc)

variable {method} {resolveField : Nat → Option FieldBlock} {pc : Nat}

theorem fetch_pair (isLoad : Opcode.ofByte (method.byte pc) = some .aload0)
    (isField : method.fieldOfThis resolveField pc = some field) :
    method.fetch resolveField pc =
      some ⟨if field.type = .reference then .getfieldThisRef else .getfieldThis, .push, 4, .next,
        fun _ => .value field.offset⟩ := by
  simp [fetch, isLoad, isField]

theorem fetch_single (single : Opcode.ofByte (method.byte pc) = some .aload0 →
      method.fieldOfThis resolveField pc = none) :
    method.fetch resolveField pc = method.bytecode pc := by
  rw [fetch, bytecode]
  cases isOpcode : Opcode.ofByte (method.byte pc) with
  | none => rfl
  | some opcode =>
    obtain rfl | isLoad := eq_or_ne opcode .aload0
    · simp [single isOpcode]
    · simp [isLoad]

theorem getfield_of_fieldOfThis (isField : method.fieldOfThis resolveField pc = some field) :
    Opcode.ofByte (method.byte (pc + 1)) = some .getfield := by
  rw [fieldOfThis] at isField
  split_ifs at isField with pair
  exact pair.1

theorem bytecode_load (isLoad : Opcode.ofByte (method.byte pc) = some .aload0) :
    ∃ load, method.bytecode pc = some load ∧ load.length = 1 ∧ load.flow = .next := by
  rw [bytecode, isLoad]
  exact ⟨_, rfl, rfl, rfl⟩

theorem bytecode_getfield (isGetfield : Opcode.ofByte (method.byte pc) = some .getfield) :
    ∃ get, method.bytecode pc = some get ∧ get.length = 3 ∧ get.flow = .next := by
  rw [bytecode, isGetfield]
  exact ⟨_, rfl, rfl, rfl⟩

end Method

end JamVM.Interp
