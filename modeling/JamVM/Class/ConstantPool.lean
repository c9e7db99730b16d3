import JamVM.Foundation.Bytes
import JamVM.Text.Utf8Table

/-! # Constant pools

Reading the constant pool of a class file, and the accessors of its entries. An entry is one
machine word, so two indices or a kind and an index are packed into it; a long or double is
stored over the word at its first index, and over the next one if a word has 32 bits.
-/

namespace JamVM.Class

open Function Nat List Foundation Table Text
open BitVec (eq_of_getLsbD_eq eq_of_toNat_eq getLsbD_or ofNat setWidth_eq toNat_ofNat
  toNat_setWidth)

structure Machine where
  wide : Bool
  bigEndian : Bool
  /-- The words of a `double` are in the opposite order, as for the ARM FPA. -/
  swapsDoubles : Bool
  signedChar : Bool

inductive Tag
  | utf8
  | integer
  | float
  | long
  | double
  | classRef
  | string
  | fieldref
  | methodref
  | interfaceMethodref
  | nameAndType
  | methodHandle
  | methodType
  | invokeDynamic
deriving DecidableEq

namespace Tag

def code : Tag → BitVec 8
  | utf8 => 1
  | integer => 3
  | float => 4
  | long => 5
  | double => 6
  | .classRef => 7
  | string => 8
  | fieldref => 9
  | methodref => 10
  | interfaceMethodref => 11
  | nameAndType => 12
  | methodHandle => 15
  | methodType => 16
  | invokeDynamic => 18

def all : List Tag :=
  [utf8, integer, float, long, double, .classRef, string, fieldref, methodref, interfaceMethodref,
    nameAndType, methodHandle, methodType, invokeDynamic]

def ofCode (code : BitVec 8) : Option Tag := all.find? (·.code = code)

theorem ofCode_code (tag : Tag) : ofCode tag.code = some tag := by
  cases tag <;> rfl

end Tag

/-! ## Storage -/

inductive Info
  | word (bits : BitVec 64)
  | pointer (memory : List (BitVec 8))

def Info.bits : Info → Option (BitVec 64)
  | word bits => some bits
  | pointer _ => none

structure ConstantPool where
  type : Nat → BitVec 8
  info : Nat → Info

namespace Machine

variable (vm : Machine)

def isBE64 : Bool := vm.wide && vm.bigEndian

def ofInt (value : BitVec 32) : Info :=
  .word (if vm.wide then value.signExtend 64 else value.setWidth 64)

def halves (value : BitVec 64) : BitVec 32 × BitVec 32 :=
  let high := value.extractLsb' 32 32
  let low := value.setWidth 32
  if vm.bigEndian then (high, low) else (low, high)

def ofHalves (first second : BitVec 32) : BitVec 64 :=
  if vm.bigEndian then
    first.setWidth 64 <<< 32 ||| second.setWidth 64
  else
    second.setWidth 64 <<< 32 ||| first.setWidth 64

def swapHalves (value : BitVec 64) : BitVec 64 := value <<< 32 ||| value >>> 32

end Machine

namespace ConstantPool

variable (pool : ConstantPool) (vm : Machine)

section
variable (i : Nat)

def setType (tag : BitVec 8) : ConstantPool := { pool with type := update pool.type i tag }

def setInfo (info : Info) : ConstantPool := { pool with info := update pool.info i info }

def setWide (value : BitVec 64) : ConstantPool :=
  if vm.wide then
    pool.setInfo i (.word value)
  else
    let (first, second) := vm.halves value
    (pool.setInfo i (.word (first.setWidth 64))).setInfo (i + 1) (.word (second.setWidth 64))

def lowIndex : Option (BitVec 16) := (pool.info i).bits.map (·.setWidth 16)

def highIndex : Option (BitVec 16) :=
  (pool.info i).bits.map fun bits : BitVec 64 => (bits >>> 16).setWidth 16

def cpType : BitVec 8 := pool.type i
def cpClass : Option (BitVec 16) := pool.lowIndex i
def cpString : Option (BitVec 16) := pool.lowIndex i
def cpMethodClass : Option (BitVec 16) := pool.lowIndex i
def cpMethodNameType : Option (BitVec 16) := pool.highIndex i
def cpInterfaceClass : Option (BitVec 16) := pool.lowIndex i
def cpInterfaceNameType : Option (BitVec 16) := pool.highIndex i
def cpFieldClass : Option (BitVec 16) := pool.lowIndex i
def cpFieldNameType : Option (BitVec 16) := pool.highIndex i
def cpNameTypeName : Option (BitVec 16) := pool.lowIndex i
def cpNameTypeType : Option (BitVec 16) := pool.highIndex i
def cpMethodType : Option (BitVec 16) := pool.lowIndex i
def cpMethodHandleRef : Option (BitVec 16) := pool.highIndex i
def cpInvdynBootMthd : Option (BitVec 16) := pool.lowIndex i
def cpInvdynNameType : Option (BitVec 16) := pool.highIndex i

def cpMethodHandleKind : Option (BitVec 8) := (pool.info i).bits.map (·.setWidth 8)

def cpInteger : Option (BitVec 32) := (pool.info i).bits.map (·.setWidth 32)

def cpFloat : Option (BitVec 32) :=
  (pool.info i).bits.map fun bits =>
    if vm.wide then
      if vm.isBE64 then (vm.halves bits).2 else (vm.halves bits).1
    else
      bits.setWidth 32

def cpLong : Option (BitVec 64) :=
  if vm.wide then
    (pool.info i).bits
  else do
    let first ← (pool.info i).bits
    let second ← (pool.info (i + 1)).bits
    some (vm.ofHalves (first.setWidth 32) (second.setWidth 32))

def cpDouble : Option (BitVec 64) :=
  (pool.cpLong vm i).map fun bits => if vm.swapsDoubles then Machine.swapHalves bits else bits

def cpUtf8 : Option (List (BitVec 8)) :=
  match pool.info i with
  | .pointer memory => some memory
  | .word _ => none

@[simp] theorem setType_info (tag : BitVec 8) : (pool.setType i tag).info = pool.info := rfl

@[simp] theorem setInfo_type (info : Info) : (pool.setInfo i info).type = pool.type := rfl

end

theorem setType_type (i j : Nat) (tag : BitVec 8) :
    (pool.setType i tag).type j = if j = i then tag else pool.type j :=
  update_apply pool.type i tag j

theorem setInfo_info (i j : Nat) (info : Info) :
    (pool.setInfo i info).info j = if j = i then info else pool.info j :=
  update_apply pool.info i info j

@[simp] theorem setInfo_info_self (i : Nat)
    (info : Info) : (pool.setInfo i info).info i = info := by
  rw [setInfo_info, if_pos rfl]

@[simp] theorem setWide_type (i : Nat) (value : BitVec 64) :
    (pool.setWide vm i value).type = pool.type := by
  rw [setWide]
  split_ifs <;> rfl

theorem setWide_info_of_lt (pre : j < i) (value : BitVec 64) :
    (pool.setWide vm i value).info j = pool.info j := by
  rw [setWide]
  split_ifs
  · rw [setInfo_info, if_neg (by omega)]
  · rw [setInfo_info, if_neg (by omega), setInfo_info, if_neg (by omega)]

end ConstantPool

/-! ## Parsing -/

inductive Failure
  | classFormatError (message : String)
  | exitVM
  | undefined

abbrev Read (Value : Type) := Except Failure (Value × List (BitVec 8))

def readU1 : List (BitVec 8) → Read (BitVec 8)
  | first :: rest => .ok (first, rest)
  | _ => .error .undefined

def readU2 : List (BitVec 8) → Read (BitVec 32)
  | p0 :: p1 :: rest => .ok (p0.setWidth 32 <<< 8 ||| p1.setWidth 32, rest)
  | _ => .error .undefined

def readU4 : List (BitVec 8) → Read (BitVec 32)
  | p0 :: p1 :: p2 :: p3 :: rest =>
    .ok (p0.setWidth 32 <<< 24 ||| p1.setWidth 32 <<< 16 ||| p2.setWidth 32 <<< 8 |||
      p3.setWidth 32, rest)
  | _ => .error .undefined

def readU8 : List (BitVec 8) → Read (BitVec 64)
  | p0 :: p1 :: p2 :: p3 :: p4 :: p5 :: p6 :: p7 :: rest =>
    .ok (p0.setWidth 64 <<< 56 ||| p1.setWidth 64 <<< 48 ||| p2.setWidth 64 <<< 40 |||
      p3.setWidth 64 <<< 32 ||| p4.setWidth 64 <<< 24 ||| p5.setWidth 64 <<< 16 |||
      p6.setWidth 64 <<< 8 ||| p7.setWidth 64, rest)
  | _ => .error .undefined

def readDbl (vm : Machine) : List (BitVec 8) → Read (BitVec 64)
  | p0 :: p1 :: p2 :: p3 :: p4 :: p5 :: p6 :: p7 :: rest =>
    if vm.swapsDoubles then
      readU8 (p4 :: p5 :: p6 :: p7 :: p0 :: p1 :: p2 :: p3 :: rest)
    else
      readU8 (p0 :: p1 :: p2 :: p3 :: p4 :: p5 :: p6 :: p7 :: rest)
  | _ => .error .undefined

structure Parser where
  i : Nat
  ptr : List (BitVec 8)
  pool : ConstantPool
  strings : HashTable (List (BitVec 8))

namespace Parser

variable (vm : Machine) (fuel cpCount : Nat)

def parseConstant (parser : Parser) : Except Failure Parser := do
  let i := parser.i
  let (tag, ptr) ← readU1 parser.ptr
  let pool := parser.pool.setType i tag
  match Tag.ofCode tag with
  | some .classRef | some .string | some .methodType =>
    let (index, ptr) ← readU2 ptr
    .ok { parser with i := i + 1, ptr, pool := pool.setInfo i (vm.ofInt index) }
  | some .fieldref | some .methodref | some .nameAndType | some .invokeDynamic
  | some .interfaceMethodref =>
    let (idx1, ptr) ← readU2 ptr
    let (idx2, ptr) ← readU2 ptr
    .ok { parser with
      i := i + 1, ptr, pool := pool.setInfo i (vm.ofInt (idx2 <<< 16 + idx1)) }
  | some .methodHandle =>
    let (kind, ptr) ← readU1 ptr
    let (idx, ptr) ← readU2 ptr
    .ok { parser with
      i := i + 1, ptr, pool := pool.setInfo i (vm.ofInt (idx <<< 16 + kind.setWidth 32)) }
  | some .float | some .integer =>
    let (value, ptr) ← readU4 ptr
    .ok { parser with i := i + 1, ptr, pool := pool.setInfo i (vm.ofInt value) }
  | some .long =>
    let (value, ptr) ← readU8 ptr
    if i + 1 < cpCount then
      .ok { parser with
        i := i + 2, ptr, pool := (pool.setWide vm i value).setType (i + 1) 0 }
    else
      .error .undefined
  | some .double =>
    let (value, ptr) ← readDbl vm ptr
    if i + 1 < cpCount then
      .ok { parser with
        i := i + 2, ptr, pool := (pool.setWide vm i value).setType (i + 1) 0 }
    else
      .error .undefined
  | some .utf8 =>
    let (length, ptr) ← readU2 ptr
    if length.toNat ≤ ptr.length then
      match newUtf8 vm.signedChar fuel parser.strings (ptr.take length.toNat ++ [0]) with
      | some (some (.live interned), strings) =>
        .ok ⟨i + 1, ptr.drop length.toNat, pool.setInfo i (.pointer interned), strings⟩
      | some (some .deleted, _) | some (none, _) | none => .error .undefined
    else
      .error .undefined
  | none => .error (.classFormatError "bad constant pool tag")

def parseConstants : Nat → Parser → Except Failure Parser
  | 0, _ => .error .undefined
  | left + 1, parser =>
    if parser.i < cpCount then do
      let next ← parser.parseConstant vm fuel cpCount
      parseConstants left next
    else
      .ok parser

end Parser

/-- The part of `parseClass` that reads the pool. Its arrays are not initialised. -/
def parseConstantPool (vm : Machine) (fuel : Nat) (strings : HashTable (List (BitVec 8)))
    (uninitialised : ConstantPool) (ptr : List (BitVec 8)) : Except Failure Parser := do
  let (cpCount, ptr) ← readU2 ptr
  Parser.parseConstants vm fuel cpCount.toNat fuel ⟨1, ptr, uninitialised, strings⟩

/-! ## The class-file format -/

inductive Constant
  | utf8 (unicode : List (BitVec 16))
  | integer (bits : BitVec 32)
  | float (bits : BitVec 32)
  | long (bits : BitVec 64)
  | double (bits : BitVec 64)
  | classRef (name : BitVec 16)
  | string (utf8 : BitVec 16)
  | fieldref (owner nameAndType : BitVec 16)
  | methodref (owner nameAndType : BitVec 16)
  | interfaceMethodref (owner nameAndType : BitVec 16)
  | nameAndType (name descriptor : BitVec 16)
  | methodHandle (kind : BitVec 8) (reference : BitVec 16)
  | methodType (descriptor : BitVec 16)
  | invokeDynamic (bootstrap nameAndType : BitVec 16)

def bytes2 (value : BitVec 16) : List (BitVec 8) := [byteOf value 1, byteOf value 0]

def bytes4 (value : BitVec 32) : List (BitVec 8) :=
  [byteOf value 3, byteOf value 2, byteOf value 1, byteOf value 0]

def bytes8 (value : BitVec 64) : List (BitVec 8) :=
  [byteOf value 7, byteOf value 6, byteOf value 5, byteOf value 4, byteOf value 3, byteOf value 2,
    byteOf value 1, byteOf value 0]

namespace Constant

def tag : Constant → Tag
  | utf8 _ => .utf8
  | integer _ => .integer
  | float _ => .float
  | long _ => .long
  | double _ => .double
  | .classRef _ => .classRef
  | string _ => .string
  | fieldref _ _ => .fieldref
  | methodref _ _ => .methodref
  | interfaceMethodref _ _ => .interfaceMethodref
  | nameAndType _ _ => .nameAndType
  | methodHandle _ _ => .methodHandle
  | methodType _ => .methodType
  | invokeDynamic _ _ => .invokeDynamic

def utf8Bytes (unicode : List (BitVec 16)) : List (BitVec 8) := unicode.flatMap encode

def payload : Constant → List (BitVec 8)
  | utf8 unicode => bytes2 (BitVec.ofNat 16 (utf8Bytes unicode).length) ++ utf8Bytes unicode
  | integer bits | float bits => bytes4 bits
  | long bits | double bits => bytes8 bits
  | .classRef index | string index | methodType index => bytes2 index
  | fieldref first second | methodref first second | interfaceMethodref first second
  | nameAndType first second | invokeDynamic first second => bytes2 first ++ bytes2 second
  | methodHandle kind reference => kind :: bytes2 reference

def bytes (constant : Constant) : List (BitVec 8) := constant.tag.code :: constant.payload

def width : Constant → Nat
  | long _ | double _ => 2
  | utf8 _ | integer _ | float _ | .classRef _ | string _ | fieldref _ _ | methodref _ _
  | interfaceMethodref _ _ | nameAndType _ _ | methodHandle _ _ | methodType _
  | invokeDynamic _ _ => 1

theorem width_pos (constant : Constant) : 0 < constant.width := by
  cases constant <;> simp [width]

def Fits : Constant → Prop
  | utf8 unicode => (utf8Bytes unicode).length < 2 ^ 16
  | _ => True

def indexed : Nat → List Constant → List (Nat × Constant)
  | _, [] => []
  | i, constant :: rest => (i, constant) :: indexed (i + constant.width) rest

def poolCount (constants : List Constant) : Nat := 1 + (constants.map width).sum

def poolBytes (constants : List Constant) : List (BitVec 8) :=
  bytes2 (BitVec.ofNat 16 (poolCount constants)) ++ constants.flatMap bytes

end Constant

open ConstantPool hiding info type
open Constant (Fits bytes indexed payload poolBytes poolCount utf8Bytes width)

def Parser.Shows (vm : Machine) (parser : Parser) (i : Nat) : Constant → Prop
  | .utf8 unicode => ∃ memory ∈ contents parser.strings.entries,
      parser.pool.cpUtf8 i = some memory ∧
      convertUtf8 vm.signedChar memory = some unicode
  | .integer bits => parser.pool.cpInteger i = some bits
  | .float bits => parser.pool.cpFloat vm i = some bits
  | .long bits => parser.pool.cpLong vm i = some bits ∧ parser.pool.cpType (i + 1) = 0
  | .double bits => parser.pool.cpDouble vm i = some bits ∧ parser.pool.cpType (i + 1) = 0
  | .classRef name => parser.pool.cpClass i = some name
  | .string utf8 => parser.pool.cpString i = some utf8
  | .fieldref owner nameAndType => parser.pool.cpFieldClass i = some owner ∧
      parser.pool.cpFieldNameType i = some nameAndType
  | .methodref owner nameAndType => parser.pool.cpMethodClass i = some owner ∧
      parser.pool.cpMethodNameType i = some nameAndType
  | .interfaceMethodref owner nameAndType => parser.pool.cpInterfaceClass i = some owner ∧
      parser.pool.cpInterfaceNameType i = some nameAndType
  | .nameAndType name descriptor => parser.pool.cpNameTypeName i = some name ∧
      parser.pool.cpNameTypeType i = some descriptor
  | .methodHandle kind reference => parser.pool.cpMethodHandleKind i = some kind ∧
      parser.pool.cpMethodHandleRef i = some reference
  | .methodType descriptor => parser.pool.cpMethodType i = some descriptor
  | .invokeDynamic bootstrap nameAndType => parser.pool.cpInvdynBootMthd i = some bootstrap ∧
      parser.pool.cpInvdynNameType i = some nameAndType

/-! ## Reading what was written -/

section
variable (rest : List (BitVec 8))

theorem readU2_bytes2 (value : BitVec 16) :
    readU2 (bytes2 value ++ rest) = .ok (value.setWidth 32, rest) := by
  simp only [bytes2, cons_append, nil_append, readU2, joinBytes2]

theorem readU4_bytes4 (value : BitVec 32) : readU4 (bytes4 value ++ rest) = .ok (value, rest) := by
  simp only [bytes4, cons_append, nil_append, readU4, joinBytes4]

theorem readU8_bytes8 (value : BitVec 64) : readU8 (bytes8 value ++ rest) = .ok (value, rest) := by
  simp only [bytes8, cons_append, nil_append, readU8, joinBytes8]

theorem getLsbD_swapHalves (value : BitVec 64) (inside : i < 64) :
    (Machine.swapHalves value).getLsbD i = value.getLsbD (if i < 32 then i + 32 else i - 32) := by
  rw [Machine.swapHalves, getLsbD_or, BitVec.getLsbD_shiftLeft, BitVec.getLsbD_ushiftRight]
  split_ifs with low
  · simp [low, inside, add_comm]
  · rw [BitVec.getLsbD_of_ge value (32 + i) (by omega)]
    simp [low, inside]

theorem swapHalves_swapHalves (value : BitVec 64) :
    Machine.swapHalves (Machine.swapHalves value) = value := by
  apply eq_of_getLsbD_eq
  intro i inside
  rw [getLsbD_swapHalves _ inside, getLsbD_swapHalves _ (by split_ifs <;> omega)]
  congr 1
  split_ifs <;> omega

theorem byteOf_swapHalves (value : BitVec 64) (inside : place < 8) :
    byteOf (Machine.swapHalves value) place =
      byteOf value (if place < 4 then place + 4 else place - 4) := by
  apply eq_of_getLsbD_eq
  intro i small
  simp only [byteOf, BitVec.getLsbD_extractLsb', small]
  rw [getLsbD_swapHalves _ (by omega)]
  congr 2
  split_ifs <;> omega

theorem readDbl_bytes8 (vm : Machine) (value : BitVec 64) : readDbl vm (bytes8 value ++ rest) =
      .ok (if vm.swapsDoubles then Machine.swapHalves value else value, rest) := by
  have swapped := readU8_bytes8 rest (Machine.swapHalves value)
  have straight := readU8_bytes8 rest value
  simp only [bytes8, cons_append, nil_append] at swapped straight ⊢
  simp (disch := decide) only [byteOf_swapHalves] at swapped
  rw [readDbl]
  split_ifs
  · exact swapped
  · exact straight

end

/-! ## Packed words -/

section
variable (vm : Machine)

theorem bits_ofInt (value : BitVec 32) (width shift : Nat) (inside : shift + width ≤ 32) :
    (vm.ofInt value).bits.map (fun bits : BitVec 64 => (bits >>> shift).setWidth width) =
      some ((value >>> shift).setWidth width) := by
  simp only [Machine.ofInt, Info.bits, Option.map_some, Option.some.injEq]
  apply eq_of_getLsbD_eq
  intro i small
  simp only [BitVec.getLsbD_setWidth, BitVec.getLsbD_ushiftRight, small, decide_true, Bool.true_and]
  have inValue : shift + i < 32 := by omega
  have inWord : shift + i < 64 := by omega
  split_ifs
  · rw [BitVec.getLsbD_signExtend, if_pos inValue, decide_eq_true inWord, Bool.true_and]
  · simp [inWord]

theorem bits_ofInt_low (value : BitVec 32) (width : Nat) (inside : width ≤ 32) :
    (vm.ofInt value).bits.map (·.setWidth width) = some (value.setWidth width) := by
  simpa using bits_ofInt vm value width 0 (by omega)

theorem toNat_pack (low high : BitVec 16) :
    (high.setWidth 32 <<< 16 + low.setWidth 32).toNat = high.toNat * 2 ^ 16 + low.toNat := by
  simp only [BitVec.toNat_add, BitVec.toNat_shiftLeft, toNat_setWidth, shiftLeft_eq]
  omega

theorem pack_low (low high : BitVec 16) :
    (high.setWidth 32 <<< 16 + low.setWidth 32).setWidth 16 = low := by
  apply eq_of_toNat_eq
  rw [toNat_setWidth, toNat_pack]
  omega

theorem pack_high (low high : BitVec 16) :
    ((high.setWidth 32 <<< 16 + low.setWidth 32) >>> 16).setWidth 16 = high := by
  apply eq_of_toNat_eq
  rw [toNat_setWidth, BitVec.toNat_ushiftRight, toNat_pack, shiftRight_eq_div_pow]
  omega

theorem ofHalves_halves (value : BitVec 64) :
    vm.ofHalves (vm.halves value).1 (vm.halves value).2 = value := by
  have joined : (value.extractLsb' 32 32).setWidth 64 <<< 32 ||| (value.setWidth 32).setWidth 64 =
      value := by
    apply eq_of_getLsbD_eq
    intro i inside
    simp only [getLsbD_or, BitVec.getLsbD_shiftLeft, BitVec.getLsbD_setWidth,
      BitVec.getLsbD_extractLsb', inside]
    by_cases low : i < 32
    · simp [low]
    · simp [low, show i - 32 < 32 by omega, show i - 32 < 64 by omega,
        show 32 + (i - 32) = i by omega]
  rw [Machine.ofHalves, Machine.halves]
  by_cases big : vm.bigEndian = true
  · rw [if_pos big, if_pos big]
    exact joined
  · rw [if_neg big, if_neg big]
    exact joined

variable (pool : ConstantPool) (i : Nat)

theorem cpLong_setWide (value : BitVec 64) :
    (pool.setWide vm i value).cpLong vm i = some value := by
  simp only [setWide, cpLong]
  split_ifs
  · rw [setInfo_info_self, Info.bits]
  · simp [setInfo_info, Info.bits, ofHalves_halves]

theorem cpFloat_setInfo (bits : BitVec 32) :
    (pool.setInfo i (vm.ofInt bits)).cpFloat vm i = some bits := by
  rw [cpFloat, setInfo_info_self]
  refine Eq.trans ?_ ((bits_ofInt_low vm bits 32 le_rfl).trans (congrArg some (setWidth_eq bits)))
  congr 1
  funext word
  simp only [Machine.isBE64, Machine.halves]
  by_cases wide : vm.wide = true <;> by_cases big : vm.bigEndian = true <;>
    simp [wide, big]

theorem lowIndex_setInfo (index : BitVec 16) :
    (pool.setInfo i (vm.ofInt (index.setWidth 32))).lowIndex i = some index := by
  rw [lowIndex, setInfo_info_self, bits_ofInt_low vm _ 16 (by decide)]
  simp

theorem lowIndex_pack (low high : BitVec 16) :
    (pool.setInfo i (vm.ofInt (high.setWidth 32 <<< 16 + low.setWidth 32))).lowIndex i =
      some low := by
  rw [lowIndex, setInfo_info_self, bits_ofInt_low vm _ 16 (by decide), pack_low]

theorem highIndex_pack (low high : BitVec 16) :
    (pool.setInfo i (vm.ofInt (high.setWidth 32 <<< 16 + low.setWidth 32))).highIndex i =
      some high := by
  rw [highIndex, setInfo_info_self, bits_ofInt vm _ 16 16 (by decide), pack_high]

theorem setWidth_kind (kind : BitVec 8) : (kind.setWidth 16).setWidth 32 = kind.setWidth 32 := by
  apply eq_of_toNat_eq
  simp only [toNat_setWidth]
  omega

theorem cpMethodHandleKind_pack (kind : BitVec 8) (high : BitVec 16) : (pool.setInfo i
      (vm.ofInt (high.setWidth 32 <<< 16 + kind.setWidth 32))).cpMethodHandleKind i =
      some kind := by
  have packed := toNat_pack (kind.setWidth 16) high
  rw [setWidth_kind] at packed
  rw [cpMethodHandleKind, setInfo_info_self, bits_ofInt_low vm _ 8 (by decide), Option.some.injEq]
  apply eq_of_toNat_eq
  rw [toNat_setWidth, packed, toNat_setWidth]
  omega

end

/-! ## The loop -/

def Canonical (strings : HashTable (List (BitVec 8))) : Prop :=
  ∀ memory ∈ contents strings.entries, ∃ unicode, memory = unicode2Utf8 unicode

namespace Parser

structure Extends (pre post : Parser) : Prop where
  le : pre.i ≤ post.i
  type : ∀ j < pre.i, post.pool.type j = pre.pool.type j
  info : ∀ j < pre.i, post.pool.info j = pre.pool.info j
  strings : contents pre.strings.entries ⊆ contents post.strings.entries
  canonical : Canonical pre.strings → Canonical post.strings

theorem Extends.refl (parser : Parser) : Extends parser parser :=
  ⟨le_rfl, fun _ _ => rfl, fun _ _ => rfl, subset_rfl, id⟩

theorem Extends.trans (left : Extends first second)
    (right : Extends second third) : Extends first third where
  le := left.le.trans right.le
  type := fun j pre => (right.type j (pre.trans_le left.le)).trans (left.type j pre)
  info := fun j pre => (right.info j (pre.trans_le left.le)).trans (left.info j pre)
  strings := left.strings.trans right.strings
  canonical := right.canonical ∘ left.canonical

theorem Shows.extend {i : Nat}
    (shows : pre.Shows vm i constant) (inside : i + constant.width ≤ pre.i)
    (extension : Extends pre post) : post.Shows vm i constant := by
  have info : post.pool.info i = pre.pool.info i :=
    extension.info i (by cases constant <;> simp only [width] at inside <;> omega)
  cases constant
  case utf8 =>
    obtain ⟨memory, mem, isMemory, converted⟩ := shows
    refine ⟨memory, extension.strings mem, ?_, converted⟩
    rw [← isMemory, cpUtf8, info]
    rfl
  case long | double =>
    have next : post.pool.info (i + 1) = pre.pool.info (i + 1) := extension.info (i + 1) inside
    have isLong : post.pool.cpLong vm i = pre.pool.cpLong vm i := by
      rw [cpLong, info, next]
      rfl
    refine ⟨?_, (extension.type (i + 1) inside).trans shows.2⟩
    first
      | exact isLong.trans shows.1
      | exact (congrArg (Option.map _) isLong).trans shows.1
  all_goals
    simp only [Shows, cpInteger, cpFloat, cpClass, cpString, cpFieldClass, cpFieldNameType,
      cpMethodClass, cpMethodNameType, cpInterfaceClass, cpInterfaceNameType, cpNameTypeName,
      cpNameTypeType, cpMethodHandleKind, cpMethodHandleRef, cpMethodType, cpInvdynBootMthd,
      cpInvdynNameType, lowIndex, highIndex, info] at shows ⊢
    exact shows

structure Parsed (vm : Machine) (pre : Parser) (constant : Constant)
    (rest : List (BitVec 8)) (post : Parser) : Prop where
  i : post.i = pre.i + constant.width
  ptr : post.ptr = rest
  valid : Valid (utf8Hashing vm.signedChar) post.strings
  extension : Extends pre post
  type : post.pool.cpType pre.i = constant.tag.code
  shown : post.Shows vm pre.i constant

section
variable {vm : Machine} {parser : Parser} {rest : List (BitVec 8)}

variable {constant : Constant}

theorem parsed_word (width : constant.width = 1)
    (valid : Valid (utf8Hashing vm.signedChar) parser.strings)
    (isPost : post = ⟨parser.i + 1, rest,
      (parser.pool.setType parser.i constant.tag.code).setInfo parser.i info, parser.strings⟩)
    (shown : Shows vm post parser.i constant) : Parsed vm parser constant rest post := by
  subst isPost
  refine ⟨by rw [width], rfl, valid, ⟨le_succ _, fun j pre => ?_, fun j pre => ?_,
    subset_rfl, id⟩, ?_, shown⟩
  · rw [setInfo_type, setType_type, if_neg (by omega)]
  · rw [setInfo_info, if_neg (by omega), setType_info]
  · rw [cpType, setInfo_type, setType_type, if_pos rfl]

theorem parsed_wide (width : constant.width = 2)
    (valid : Valid (utf8Hashing vm.signedChar) parser.strings)
    (isPost : post = ⟨parser.i + 2, rest,
      ((parser.pool.setType parser.i constant.tag.code).setWide vm parser.i value).setType
        (parser.i + 1) 0, parser.strings⟩)
    (shown : Shows vm post parser.i constant) : Parsed vm parser constant rest post := by
  subst isPost
  refine ⟨by rw [width], rfl, valid, ⟨le_add_right _ _, fun j pre => ?_, fun j pre => ?_,
    subset_rfl, id⟩, ?_, shown⟩
  · rw [setType_type, if_neg (by omega), setWide_type, setType_type, if_neg (by omega)]
  · rw [setType_info, setWide_info_of_lt _ _ pre, setType_info]
  · rw [cpType, setType_type, if_neg (by omega), setWide_type, setType_type, if_pos rfl]

variable {cpCount : Nat}

theorem parseConstant_bytes (fits : constant.Fits)
    (valid : Valid (utf8Hashing vm.signedChar) parser.strings)
    (isPtr : parser.ptr = constant.bytes ++ rest)
    (inside : parser.i + constant.width ≤ cpCount) :
    ∃ next, (∃ enough, ∀ fuel ≥ enough, parser.parseConstant vm fuel cpCount = .ok next) ∧
      Parsed vm parser constant rest next := by
  have tag : readU1 parser.ptr = .ok (constant.tag.code, constant.payload ++ rest) := by
    rw [isPtr]
    rfl
  simp only [parseConstant, tag, bind, Except.bind, Tag.ofCode_code]
  cases constant
  case utf8 unicode =>
    obtain ⟨interned, strings, ⟨enough, found⟩, validNext, mem, converted, grown, added⟩ :=
      newUtf8_spec valid unicode
    have length : ((ofNat 16 (utf8Bytes unicode).length).setWidth 32).toNat =
        (utf8Bytes unicode).length := by
      rw [Fits] at fits
      simp only [toNat_setWidth, toNat_ofNat]
      omega
    refine ⟨⟨parser.i + 1, rest, (parser.pool.setType parser.i Tag.utf8.code).setInfo parser.i
      (.pointer interned), strings⟩, ⟨enough, fun fuel large => ?_⟩, rfl, rfl, validNext,
      ⟨le_succ _, fun j pre => ?_, fun j pre => ?_, grown, ?_⟩, ?_, ?_⟩
    · simp only [Constant.tag, payload, append_assoc, readU2_bytes2, length]
      rw [if_pos (by simp), take_left, drop_left, utf8Bytes,
        ← unicode2Utf8_eq_append, found fuel large]
    · rw [setInfo_type, setType_type, if_neg (by omega)]
    · rw [setInfo_info, if_neg (by omega), setType_info]
    · intro canonical memory isMember
      rcases added isMember with rfl | isMember
      · exact ⟨unicode, rfl⟩
      · exact canonical memory isMember
    · rw [cpType, setInfo_type, setType_type, if_pos rfl]
      rfl
    · refine ⟨interned, mem, ?_, converted⟩
      rw [cpUtf8, setInfo_info_self]
  case long bits =>
    simp only [Constant.tag, payload, readU8_bytes8,
      if_pos (show parser.i + 1 < cpCount from inside)]
    exact ⟨_, ⟨0, fun _ _ => rfl⟩, parsed_wide rfl valid rfl ⟨cpLong_setWide vm _ _ bits, by
      rw [cpType, setType_type, if_pos rfl]⟩⟩
  case double =>
    simp only [Constant.tag, payload, readDbl_bytes8,
      if_pos (show parser.i + 1 < cpCount from inside)]
    refine ⟨_, ⟨0, fun _ _ => rfl⟩, parsed_wide rfl valid rfl ⟨?_, by
      rw [cpType, setType_type, if_pos rfl]⟩⟩
    refine (congrArg (Option.map _) (cpLong_setWide vm _ _ _)).trans ?_
    rw [Option.map_some]
    split_ifs
    · rw [swapHalves_swapHalves]
    · rfl
  case integer bits =>
    simp only [Constant.tag, payload, readU4_bytes4]
    refine ⟨_, ⟨0, fun _ _ => rfl⟩, parsed_word rfl valid rfl ?_⟩
    simp only [Shows, cpInteger, setInfo_info_self, bits_ofInt_low vm bits 32 le_rfl, setWidth_eq]
  case float bits =>
    simp only [Constant.tag, payload, readU4_bytes4]
    exact ⟨_, ⟨0, fun _ _ => rfl⟩, parsed_word rfl valid rfl (cpFloat_setInfo vm _ _ bits)⟩
  case methodHandle kind reference =>
    simp only [Constant.tag, payload, cons_append, readU1, readU2_bytes2]
    exact ⟨_, ⟨0, fun _ _ => rfl⟩, parsed_word rfl valid rfl
      ⟨cpMethodHandleKind_pack vm _ _ kind reference, by
        rw [← setWidth_kind]
        exact highIndex_pack vm _ _ _ reference⟩⟩
  case classRef | string | methodType =>
    simp only [Constant.tag, payload, readU2_bytes2]
    exact ⟨_, ⟨0, fun _ _ => rfl⟩, parsed_word rfl valid rfl (lowIndex_setInfo vm _ _ _)⟩
  all_goals
    simp only [Constant.tag, payload, append_assoc, readU2_bytes2]
    exact ⟨_, ⟨0, fun _ _ => rfl⟩, parsed_word rfl valid rfl
      ⟨lowIndex_pack vm _ _ _ _, highIndex_pack vm _ _ _ _⟩⟩

structure Reads (vm : Machine) (pre : Parser) (constants : List Constant)
    (rest : List (BitVec 8)) (post : Parser) : Prop where
  i : post.i = pre.i + (constants.map width).sum
  ptr : post.ptr = rest
  valid : Valid (utf8Hashing vm.signedChar) post.strings
  extension : Extends pre post
  shown : ∀ i constant, (i, constant) ∈ indexed pre.i constants →
    post.pool.cpType i = constant.tag.code ∧ post.Shows vm i constant

theorem parseConstants_bytes (fits : ∀ constant ∈ constants, constant.Fits)
    (valid : Valid (utf8Hashing vm.signedChar) parser.strings)
    (isPtr : parser.ptr = constants.flatMap bytes ++ rest)
    (count : parser.i + (constants.map width).sum = cpCount) :
    ∃ next, (∃ enough, ∀ fuel ≥ enough, ∀ left ≥ enough,
        parseConstants vm fuel cpCount left parser = .ok next) ∧
      Reads vm parser constants rest next := by
  induction constants generalizing parser with
  | nil =>
    refine ⟨parser, ⟨1, fun fuel _ left enough => ?_⟩, rfl, isPtr, valid, .refl parser, ?_⟩
    · obtain ⟨left, rfl⟩ := Nat.exists_eq_add_of_le' enough
      rw [parseConstants, if_neg (by simp at count; omega)]
    · intro i constant mem
      cases mem
  | cons constant constants ih =>
    have positive := constant.width_pos
    simp only [flatMap_cons, append_assoc, map_cons, sum_cons] at isPtr count
    obtain ⟨middle, ⟨enough, step⟩, parsed⟩ := parseConstant_bytes
      (fits constant mem_cons_self) valid isPtr
      (show parser.i + constant.width ≤ cpCount by omega)
    obtain ⟨next, ⟨more, run⟩, reads⟩ := ih
      (fun constant mem => fits constant (mem_cons_of_mem _ mem)) parsed.valid
      parsed.ptr (by rw [parsed.i]; omega)
    refine ⟨next, ⟨enough + more + 1, fun fuel large left leftLarge => ?_⟩,
      by rw [reads.i, parsed.i, map_cons, sum_cons, add_assoc], reads.ptr,
      reads.valid, parsed.extension.trans reads.extension, ?_⟩
    · obtain ⟨left, rfl⟩ := Nat.exists_eq_add_of_le' (show 1 ≤ left by omega)
      rw [parseConstants, if_pos (by omega), step fuel (by omega)]
      exact run fuel (by omega) left (by omega)
    · intro i other mem
      rcases mem_cons.mp mem with isHead | mem
      · obtain ⟨rfl, rfl⟩ := Prod.mk.inj isHead
        have kept : next.pool.cpType parser.i = middle.pool.cpType parser.i :=
          reads.extension.type _ (by rw [parsed.i]; omega)
        exact ⟨kept.trans parsed.type, parsed.shown.extend (by rw [parsed.i]) reads.extension⟩
      · exact reads.shown i other (by rw [parsed.i]; exact mem)

end

end Parser

/-- Parsing undoes the encoding of a well-formed pool: the accessors return what was encoded,
and the input stands behind the pool. Strings are interned ones with the same code units, and
have the same bytes unless a string in another form was interned before. -/
theorem parseConstantPool_poolBytes (vm : Machine) {constants : List Constant}
    (fits : ∀ constant ∈ constants, constant.Fits) (small : poolCount constants < 2 ^ 16)
    {strings : HashTable (List (BitVec 8))}
    (valid : Valid (utf8Hashing vm.signedChar) strings) (uninitialised : ConstantPool)
    (rest : List (BitVec 8)) :
    ∃ parsed : Parser, (∃ enough, ∀ fuel ≥ enough, parseConstantPool vm fuel strings uninitialised
        (poolBytes constants ++ rest) = .ok parsed) ∧
      parsed.ptr = rest ∧ parsed.i = poolCount constants ∧
      (∀ i constant, (i, constant) ∈ indexed 1 constants →
        parsed.pool.cpType i = constant.tag.code ∧ parsed.Shows vm i constant) ∧
      (Canonical strings → ∀ i unicode, (i, .utf8 unicode) ∈ indexed 1 constants →
        parsed.pool.cpUtf8 i = some (unicode2Utf8 unicode)) := by
  have count : ((ofNat 16 (poolCount constants)).setWidth 32).toNat =
      poolCount constants := by
    simp only [toNat_setWidth, toNat_ofNat]
    omega
  obtain ⟨parsed, ⟨enough, run⟩, reads⟩ := Parser.parseConstants_bytes fits
    (show Valid _ (⟨1, _, uninitialised, strings⟩ : Parser).strings from valid) rfl rfl
  refine ⟨parsed, ⟨enough, fun fuel large => ?_⟩, reads.ptr, reads.i, reads.shown, ?_⟩
  · simp only [parseConstantPool, poolBytes, append_assoc, readU2_bytes2, bind, Except.bind, count]
    exact run fuel large fuel large
  · intro canonical i unicode mem
    obtain ⟨memory, isMember, isMemory, converted⟩ := (reads.shown i _ mem).2
    obtain ⟨other, rfl⟩ := reads.extension.canonical canonical memory isMember
    rw [convertUtf8_unicode2Utf8, Option.some.injEq] at converted
    rw [isMemory, converted]

def sampleConstants : List Constant := [.utf8 [0x4a, 0xe9], .long 0x0123456789abcdef, .classRef 1]

theorem sampleConstants_fits : ∀ constant ∈ sampleConstants, constant.Fits := by
  simp only [sampleConstants, forall_mem_cons, Fits, not_mem_nil, false_imp_iff,
    implies_true, and_true]
  decide

theorem parseConstantPool_sample : ∃ parsed : Parser, parsed.ptr = [0xff] ∧
      parsed.pool.cpUtf8 1 = some (unicode2Utf8 [0x4a, 0xe9]) ∧
      parsed.pool.cpLong ⟨true, false, false, true⟩ 2 = some 0x0123456789abcdef ∧
      parsed.pool.cpType 3 = 0 ∧ parsed.pool.cpClass 4 = some 1 := by
  have canonical : Canonical (.initHashTable (2 ^ 4)) := by
    intro memory mem
    simp [contents, live, used, HashTable.initHashTable, HashEntry.isUsed, HashEntry.empty] at mem
  obtain ⟨parsed, _, isPtr, _, shown, same⟩ := parseConstantPool_poolBytes
    ⟨true, false, false, true⟩ sampleConstants_fits (by decide)
    (valid_initHashTable _ 4) ⟨fun _ => 0, fun _ => .word 0⟩ [0xff]
  have long := (shown 2 (.long 0x0123456789abcdef) (by simp [sampleConstants, indexed, width])).2
  have isClass := (shown 4 (.classRef 1) (by simp [sampleConstants, indexed, width])).2
  exact ⟨parsed, isPtr, same canonical 1 _ (by simp [sampleConstants, indexed]), long.1,
    long.2, isClass⟩

end JamVM.Class
