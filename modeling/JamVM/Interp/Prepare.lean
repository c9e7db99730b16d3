import JamVM.Foundation.Loop
import JamVM.Interp.Bytecode

/-! # Translation to threaded code

The two passes of `prepare`. The first one finds the cache depth of each bytecode and the
number of its instruction, the second one stores the instructions. Depths that differ where
paths meet are resolved by a `nop`, and where the meeting point is behind, by going back
to it.
-/

namespace JamVM.Interp

structure Prepared where
  depth : Nat
  opcode : Opcode
  operand : Operand
  deriving DecidableEq

inductive Pass
  | first
  | second (allocated : Nat)

/-- The variables of `prepare`. A depth that is not known and an entry of the map that is
not set are `none`. -/
structure Scan where
  pc : Nat
  cache : Nat
  insCount : Int
  cacheDepth : Nat → Option Nat
  map : Nat → Option Int
  newCode : Int → Option Prepared
  round : Nat

/-- The build and the surroundings of a call. A constant pool entry may be resolved in one
round after it could not be resolved in an earlier one. -/
structure Translator where
  useCache : Bool
  method : Method
  resolveField : Nat → Nat → Option FieldBlock

namespace Flow

def jump : Flow → Option Nat
  | .branch dest | .goto dest | .jsr dest => some dest
  | .next | .exit | .tableSwitch .. | .lookupSwitch .. => none

theorem targets_of_jump {flow : Flow} {dest : Nat} (isJump : flow.jump = some dest) :
    flow.targets = [dest] := by
  cases flow <;> cases isJump <;> rfl

end Flow

def Instruction.place (instr : Instruction) (map : Nat → Option Int) (cache : Nat) :
    Operand :=
  match instr.flow with
  | .next | .exit => instr.operand cache
  | .branch dest | .goto dest | .jsr dest => .target (map dest)
  | .tableSwitch low high deflt entries => .switchTable low high (map deflt) (entries.map map)
  | .lookupSwitch deflt entries =>
    .lookupTable (map deflt) (entries.map fun entry => (entry.1, map entry.2))

def toShort (value : Int) : Int := Method.signed 16 (value % 2 ^ 16).toNat

theorem toShort_of_lt (positive : 0 ≤ value) (short : value < 2 ^ 15) : toShort value = value := by
  have same : value % 2 ^ 16 = value := Int.emod_eq_of_lt positive (by omega)
  rw [toShort, same, Method.signed, if_pos (by omega), Int.toNat_of_nonneg positive]

theorem toShort_lt (value : Int) : toShort value < 2 ^ 15 := by
  rw [toShort, Method.signed]
  split_ifs <;> omega

theorem toShort_emod (value : Int) : toShort value % 2 ^ 16 = value % 2 ^ 16 := by
  rw [toShort, Method.signed]
  split_ifs <;> omega

namespace Scan

variable (scan : Scan)

def record : Scan :=
  { scan with
    cacheDepth := Function.update scan.cacheDepth scan.pc (some scan.cache)
    map := Function.update scan.map scan.pc (some (toShort scan.insCount)) }

def recache (targets : List Nat) : Scan :=
  { scan with
    cacheDepth := fun pos => if pos ∈ targets then some 0 else scan.cacheDepth pos }

/-- Start again from a destination behind. With a destination ahead the number of bytes
to be reset is negative, and they are not all inside the array. -/
def rewind (dest : Nat) : Option Scan :=
  if dest ≤ scan.pc then do
    let index ← scan.map dest
    some { scan with
      cacheDepth := fun pos => if dest < pos ∧ pos ≤ scan.pc then none else scan.cacheDepth pos
      cache := (scan.cacheDepth dest).getD 0
      insCount := index - 1
      pc := dest }
  else
    none

def store (pass : Pass) (prepared : Prepared) : Option Scan :=
  match pass with
  | .first => some { scan with insCount := scan.insCount + 1 }
  | .second allocated =>
    if 0 ≤ scan.insCount ∧ scan.insCount < allocated then
      some { scan with
        newCode := Function.update scan.newCode scan.insCount (some prepared)
        insCount := scan.insCount + 1 }
    else
      none

def conflict : Bool :=
  match scan.cacheDepth scan.pc with
  | some depth => depth ≠ scan.cache
  | none => false

theorem conflict_iff :
    scan.conflict = true ↔ ∃ depth, scan.cacheDepth scan.pc = some depth ∧ depth ≠ scan.cache := by
  rw [conflict]
  cases scan.cacheDepth scan.pc <;> simp

def emit (pass : Pass) (prepared : Prepared) : Option Scan := do
  let stored ← scan.store pass prepared
  if scan.conflict then
    let stored ← stored.store pass ⟨scan.cache, .nop, prepared.operand⟩
    some { stored with cache := 0 }
  else
    some stored

theorem emit_first (prepared : Prepared) : scan.emit .first prepared =
      some (if scan.conflict then { scan with insCount := scan.insCount + 1 + 1, cache := 0 }
        else { scan with insCount := scan.insCount + 1 }) := by
  simp only [emit, store, Option.bind_eq_bind, Option.bind_some]
  split_ifs <;> rfl

end Scan

namespace Translator

variable (prep : Translator)

def leaves (instr : Instruction) (cache : Nat) : Nat :=
  if prep.useCache then instr.effect.apply cache else 0

def forward (instr : Instruction) (scan : Scan) : Scan :=
  { scan with
    cache := prep.leaves instr scan.cache
    pc := scan.pc + instr.length }

def advance (instr : Instruction) (scan : Scan) : Option Scan :=
  match instr.flow.jump with
  | some dest =>
    if 0 < (scan.cacheDepth dest).getD 0 then scan.rewind dest
    else some (prep.forward instr scan)
  | none => some (prep.forward instr scan)

def step (pass : Pass) (scan : Scan) : Option Scan := do
  let instr ← prep.method.fetch (prep.resolveField scan.round) scan.pc
  match pass with
  | .first =>
    let moved ← prep.advance instr scan.record
    let emitted ← (moved.recache instr.flow.targets).emit pass
      ⟨scan.cache, instr.opcode, instr.operand scan.cache⟩
    some { emitted with round := scan.round + 1 }
  | .second _ =>
    let moved ← prep.advance instr scan
    let emitted ← moved.emit pass ⟨scan.cache, instr.opcode, instr.place scan.map scan.cache⟩
    some { emitted with round := scan.round + 1 }

def unfinished (scan : Scan) : Bool := scan.pc < prep.method.codeLen

def initial : Scan where
  pc := 0
  cache := 0
  insCount := 0
  cacheDepth := fun pos => if pos ∈ prep.method.handlers then some 0 else none
  map := fun _ => none
  newCode := fun _ => none
  round := 0

/-- The new code, its size, the map, and the handlers of the exception table, which are
unsigned shorts. -/
structure Result where
  code : Int → Option Prepared
  codeSize : Int
  map : Nat → Option Int
  handlers : List (Option Int)

def prepare (fuel : Nat) : Option Result := do
  let first ← whileSome prep.unfinished (prep.step .first) fuel prep.initial
  let pass := Pass.second (first.insCount + 1).toNat
  let second ← whileSome prep.unfinished (prep.step pass) fuel
    { first with pc := 0, cache := 0, insCount := 0 }
  some ⟨second.newCode, second.insCount, second.map,
    prep.method.handlers.map fun handler => (second.map handler).map (· % 2 ^ 16)⟩

end Translator

end JamVM.Interp
