import JamVM.Interp.Prepare

/-! # Operands of prepared instructions

`prepare` packs the operand of an instruction into a union, whose members are shorts and
bytes, and the handlers of the direct interpreter read it with macros of their own.
-/

namespace JamVM.Interp

inductive Member
  | i (value : BitVec 32)
  | ii (i1 i2 : BitVec 16)
  | uui (u1 : BitVec 16) (u2 i : BitVec 8)

def Operand.pack : Operand → Option Member
  | .value i => some (.i (.ofInt 32 i))
  | .pair i1 i2 => some (.ii (.ofInt 16 i1) (.ofInt 16 i2))
  | .rewrite u1 u2 cache => some (.uui (.ofNat 16 u1) (.ofNat 8 u2) (.ofNat 8 cache))
  | .target _ | .switchTable .. | .lookupTable .. => none

inductive Encoded
  | immediate (value : Int)
  | localIndex (index : Int)
  | increment (index delta : Int)
  | constant (index : Int)
  | arrayType (type : Int)
  | dimensions (index count : Int)
  deriving DecidableEq

namespace Method

variable (method : Method)

def encodedWide (pc : Nat) : Opcode → Option Encoded
  | .iload | .fload | .aload | .lload | .dload | .istore | .fstore | .astore | .lstore | .dstore
  | .ret => some (.localIndex (method.readU2Op (pc + 1)))
  | .iinc => some (.increment (method.readU2Op (pc + 1)) (method.readS2Op (pc + 3)))
  | _ => none

def encoded (pc : Nat) : Opcode → Option Encoded
  | .bipush => some (.immediate (method.readS1Op pc))
  | .sipush => some (.immediate (method.readS2Op pc))
  | .iload | .fload | .aload | .lload | .dload | .istore | .fstore | .astore | .lstore | .dstore
  | .ret => some (.localIndex (method.readU1Op pc))
  | .iinc => some (.increment (method.readU1Op pc) (method.readS1Op (pc + 1)))
  | .ldc => some (.constant (method.readU1Op pc))
  | .ldcW | .ldc2W | .getstatic | .putstatic | .getfield | .putfield | .invokevirtual
  | .invokespecial | .invokestatic | .invokeinterface | .invokedynamic | .new_ | .anewarray
  | .checkcast | .instanceof => some (.constant (method.readU2Op pc))
  | .newarray => some (.arrayType (method.readU1Op pc))
  | .multianewarray => some (.dimensions (method.readU2Op pc) (method.readU1Op (pc + 2)))
  | .wide => (Opcode.ofByte (method.byte (pc + 1))).bind (method.encodedWide pc)
  | _ => none

end Method

def Encoded.read : Encoded → Member → Option Encoded
  -- `SINGLE_SIGNED` and `DOUBLE_SIGNED`
  | .immediate _, .i value => some (.immediate value.toInt)
  -- `SINGLE_INDEX`
  | .localIndex _, .i value => some (.localIndex value.toInt)
  -- `IINC_LVAR_IDX` and `IINC_DELTA`
  | .increment .., .ii i1 i2 => some (.increment i1.toInt i2.toInt)
  -- `DOUBLE_INDEX` of `ldc2_w`
  | .constant _, .i value => some (.constant value.toInt)
  | .constant _, .uui u1 _ _ => some (.constant u1.toNat)
  -- `ARRAY_TYPE`
  | .arrayType _, .i value => some (.arrayType value.toInt)
  -- `MULTI_ARRAY_DIM`
  | .dimensions .., .uui u1 u2 _ => some (.dimensions u1.toNat u2.toNat)
  | _, _ => none

def Encoded.Narrow : Encoded → Prop
  | .increment index _ => index < 2 ^ 15
  | _ => True

theorem Encoded.narrow_of_read {operand : Encoded} {member : Member}
    (isRead : operand.read member = some operand) : operand.Narrow := by
  cases operand with
  | increment index delta =>
    cases member with
    | ii i1 i2 =>
      simp only [read, Option.some.injEq, Encoded.increment.injEq] at isRead
      rw [Narrow, ← isRead.1]
      exact i1.toInt_lt
    | _ => cases isRead
  | _ => trivial

namespace Method

section
variable {method : Method} (bytes : ∀ byte ∈ method.code, byte < 2 ^ 8)
include bytes

theorem byte_lt (pos : Nat) : method.byte pos < 2 ^ 8 := by
  rw [byte, List.getD_eq_getElem?_getD]
  cases found : method.code[pos]? with
  | none => decide
  | some value => exact bytes value (List.mem_of_getElem? found)

theorem readU2Op_lt (pc : Nat) : method.readU2Op pc < 2 ^ 16 := by
  have high := byte_lt bytes (pc + 1)
  have low := byte_lt bytes (pc + 2)
  rw [readU2Op]
  omega

theorem readS1Op_bounds (pc : Nat) :
    -2 ^ 15 ≤ method.readS1Op pc ∧ method.readS1Op pc < 2 ^ 15 := by
  have less := byte_lt bytes (pc + 1)
  rw [readS1Op, readU1Op, signed]
  split_ifs <;> omega

theorem readS2Op_bounds (pc : Nat) :
    -2 ^ 15 ≤ method.readS2Op pc ∧ method.readS2Op pc < 2 ^ 15 := by
  have less := readU2Op_lt bytes pc
  rw [readS2Op, signed]
  split_ifs <;> omega

omit bytes in
theorem toInt_word (low : -2 ^ 15 ≤ value) (high : value < 2 ^ 16) :
    (BitVec.ofInt 32 value).toInt = value :=
  BitVec.toInt_ofInt_eq_self (by decide) (by omega) (by omega)

omit bytes in
theorem toInt_short (low : -2 ^ 15 ≤ value) (high : value < 2 ^ 15) :
    (BitVec.ofInt 16 value).toInt = value :=
  BitVec.toInt_ofInt_eq_self (by decide) low high

variable {pc depth : Nat} {opcode : Opcode} {instr : Instruction} {operand : Encoded}
  (map : Nat → Option Int)

theorem wide_read (decoded : method.wide pc = some instr)
    (isEncoded : method.encoded pc .wide = some operand) (narrow : operand.Narrow) :
    ∃ member, (instr.place map depth).pack = some member ∧ operand.read member = some operand := by
  have u2 := readU2Op_lt bytes (pc + 1)
  have s2 := readS2Op_bounds bytes (pc + 3)
  simp only [encoded, wide, Option.bind_eq_bind, Option.bind_eq_some_iff] at isEncoded decoded
  obtain ⟨opcode, isOpcode, isEncoded⟩ := isEncoded
  obtain ⟨_, same, decoded⟩ := decoded
  cases isOpcode.symm.trans same
  unfold encodedWide at isEncoded
  split at isEncoded
  all_goals cases isEncoded
  case h_12 =>
    cases decoded
    exact ⟨_, rfl, by rw [Encoded.read, toInt_short (by omega) narrow, toInt_short s2.1 s2.2]⟩
  all_goals
    cases decoded
    exact ⟨_, rfl, by rw [Encoded.read, toInt_word (by omega) (by omega)]⟩

end

end Method

end JamVM.Interp
