import JamVM.Interp.ControlFlow

/-! # Cache depths at run time

The handlers of the stack-caching interpreter dispatch the next instruction at a level of
their own. The depth that `prepare` has given to an instruction is the level at which every
path enters it.
-/

namespace JamVM.Interp

open List Option

inductive Control
  | next
  | branch
  | goto
  | jsr
  | tableSwitch
  | lookupSwitch
  | exit
  deriving DecidableEq

def Control.jumps : Control → Bool
  | .branch | .goto | .jsr | .tableSwitch | .lookupSwitch => true
  | .next | .exit => false

def Flow.control : Flow → Control
  | .next => .next
  | .exit => .exit
  | .branch _ => .branch
  | .goto _ => .goto
  | .jsr _ => .jsr
  | .tableSwitch .. => .tableSwitch
  | .lookupSwitch .. => .lookupSwitch

namespace Opcode

def control : Opcode → Control
  | .ifeq | .ifnull | .ifne | .ifnonnull | .iflt | .ifge | .ifgt | .ifle | .ifAcmpeq | .ifIcmpeq
  | .ifAcmpne | .ifIcmpne | .ifIcmplt | .ifIcmpge | .ifIcmpgt | .ifIcmple => .branch
  | .goto | .gotoW => .goto
  | .jsr | .jsrW => .jsr
  | .tableswitch => .tableSwitch
  | .lookupswitch => .lookupSwitch
  | .return_ | .ireturn | .areturn | .freturn | .lreturn | .dreturn | .athrow | .ret
  | .abstractMethodError | .mirandaBridge => .exit
  | _ => .next

def pushLevel : Nat → Nat
  | 0 => 1
  | _ => 2

def popLevel : Nat → Nat
  | 2 => 1
  | _ => 0

/-- `UNARY_MINUS` and `GETFIELD_QUICK` end in `PUSH_0` at levels 0 and 1, in `PUSH_1` at
level 2. -/
def replaceLevel : Nat → Nat
  | 2 => 2
  | _ => 1

/-- The level at which the handler of an opcode, entered at `level`, dispatches the next
instruction. An opcode that is rewritten has the level of the handler that takes its place,
which for a field depends on its type. -/
def dispatchLevel (isFieldLong : Nat → Bool) (operand : Operand) (opcode : Opcode)
    (level : Nat) : Nat :=
  let isLong := match operand with
    | .rewrite index _ _ => isFieldLong index
    | _ => false
  match opcode with
  -- MULTI_LEVEL_OPCODES
  | .iconstM1 | .iconst0 | .fconst0 | .aconstNull | .iconst1 | .iconst2 | .iconst3 | .iconst4
  | .iconst5 | .fconst1 | .fconst2 | .sipush | .bipush | .ldc | .iload | .fload | .aload
  | .iload0 | .fload0 | .iload1 | .fload1 | .aload1 | .iload2 | .fload2 | .aload2 | .iload3
  | .fload3 | .aload3 | .dup | .getfieldThis | .getfieldThisRef => pushLevel level
  | .istore | .fstore | .astore | .istore0 | .astore0 | .fstore0 | .istore1 | .astore1 | .fstore1
  | .istore2 | .astore2 | .fstore2 | .istore3 | .astore3 | .fstore3 | .pop => popLevel level
  | .iadd | .isub | .imul | .idiv | .irem | .iand | .ior | .ixor | .ishl | .ishr | .iushr => 1
  | .ineg => replaceLevel level
  | .iinc => level
  -- PUSH_LONG, and the handlers that leave the two top words in the cache
  | .lconst0 | .dconst0 | .dconst1 | .lconst1 | .ldc2W | .lload | .dload | .lload0 | .dload0
  | .lload1 | .dload1 | .lload2 | .dload2 | .lload3 | .dload3 | .laload | .daload | .dupX1 | .dupX2
  | .dup2 | .dup2X1 | .dup2X2 | .swap | .ladd | .lsub | .lmul | .land | .lor | .lxor | .ldiv | .lrem
  | .lshl | .lshr | .lushr | .lneg | .f2l | .d2l | .i2l => 2
  -- PUSH_0 after the cache was filled or emptied
  | .iaload | .faload | .aaload | .baload | .caload | .saload | .l2i | .f2i | .d2i | .i2b | .i2c
  | .i2s | .lcmp | .dcmpg | .dcmpl | .fcmpg | .fcmpl | .arraylength | .newarray | .new_ | .anewarray
  | .multianewarray => 1
  | .getstatic => if isLong then 2 else pushLevel level
  | .putstatic => if isLong then 0 else popLevel level
  | .getfield => if isLong then 2 else replaceLevel level
  | _ => 0

theorem dispatchLevel_of_jsr {opcode : Opcode} (isJsr : opcode.control = .jsr) (level : Nat) :
    opcode.dispatchLevel isFieldLong operand level = 0 := by
  cases opcode
  case jsr | jsrW => rfl
  all_goals cases isJsr

end Opcode

theorem of_levels {property : Nat → Prop} (zero : property 0) (one : property 1)
    (two : property 2) : ∀ level ≤ 2, property level := by
  intro level bound
  match level, bound with
  | 0, _ => exact zero
  | 1, _ => exact one
  | 2, _ => exact two

namespace Effect

variable (isLong : Bool)

theorem getStatic_apply : ∀ level ≤ 2,
    (getStatic isLong).apply level = if isLong then 2 else Opcode.pushLevel level := by
  cases isLong <;> exact of_levels rfl rfl rfl

theorem putStatic_apply : ∀ level ≤ 2,
    (putStatic isLong).apply level = if isLong then 0 else Opcode.popLevel level := by
  cases isLong <;> exact of_levels rfl rfl rfl

theorem getField_apply : ∀ level ≤ 2,
    (getField isLong).apply level = if isLong then 2 else Opcode.replaceLevel level := by
  cases isLong <;> exact of_levels rfl rfl rfl

end Effect

def Operand.destinations : Operand → List (Option Int)
  | .target index => [index]
  | .switchTable _ _ deflt entries => deflt :: entries
  | .lookupTable deflt entries => deflt :: entries.map Prod.snd
  | .value _ | .pair _ _ | .rewrite .. => []

theorem Instruction.destinations_place (instr : Instruction) (map : Nat → Option Int)
    (cache : Nat) (jumps : instr.flow.control.jumps) :
    (instr.place map cache).destinations = instr.flow.targets.map map := by
  rw [place]
  cases isFlow : instr.flow with
  | next | exit =>
    rw [isFlow] at jumps
    cases jumps
  | branch | goto | jsr | tableSwitch => rfl
  | lookupSwitch => simp [Operand.destinations, Flow.targets, Function.comp_def]

structure Instruction.Faithful (method : Method) (instr : Instruction) : Prop where
  control : instr.flow.control = instr.opcode.control
  level : ∀ map cache, ∀ level ≤ 2, instr.effect.apply level =
    instr.opcode.dispatchLevel method.peekIsFieldLong (instr.place map cache) level
  cached : ∀ map cache index byte depth,
    instr.place map cache = .rewrite index byte depth → depth = cache

namespace Method

variable {method : Method} {pc : Nat} {opcode : Opcode} {instr : Instruction}

theorem wide_faithful (decoded : method.wide pc = some instr)
    (positive : 0 < instr.length) : instr.Faithful method := by
  obtain ⟨opcode, _, made⟩ := bind_eq_some_iff.mp decoded
  split at made
  all_goals cases made
  all_goals first
    | exact ⟨rfl, fun _ _ => of_levels rfl rfl rfl, nofun⟩
    | exact absurd positive (Nat.lt_irrefl 0)

theorem tableSwitch_faithful (decoded : method.tableSwitch pc = some instr) :
    instr.Faithful method := by
  simp only [tableSwitch, bind_eq_bind, bind_eq_some_iff, some.injEq] at decoded
  obtain ⟨_, _, _, _, rfl⟩ := decoded
  exact ⟨rfl, fun _ _ => of_levels rfl rfl rfl, nofun⟩

theorem lookupSwitch_faithful (decoded : method.lookupSwitch pc = some instr) :
    instr.Faithful method := by
  simp only [lookupSwitch, bind_eq_bind, bind_eq_some_iff, some.injEq] at decoded
  obtain ⟨_, _, _, _, rfl⟩ := decoded
  exact ⟨rfl, fun _ _ => of_levels rfl rfl rfl, nofun⟩

theorem decode_faithful (decoded : method.decode pc opcode = some instr)
    (positive : 0 < instr.length) : instr.Faithful method := by
  cases opcode
  case wide => exact wide_faithful decoded positive
  case tableswitch => exact tableSwitch_faithful decoded
  case lookupswitch => exact lookupSwitch_faithful decoded
  case getfieldThis | getfieldThisRef => cases decoded
  case ifeq | ifnull | ifne | ifnonnull | iflt | ifge | ifgt | ifle | ifAcmpeq | ifIcmpeq
      | ifAcmpne | ifIcmpne | ifIcmplt | ifIcmpge | ifIcmpgt | ifIcmple | goto | gotoW | jsr
      | jsrW =>
    obtain ⟨dest, _, made⟩ := bind_eq_some_iff.mp decoded
    cases made
    exact ⟨rfl, fun _ _ => of_levels rfl rfl rfl, nofun⟩
  case getstatic =>
    cases decoded
    exact ⟨rfl, fun _ _ => Effect.getStatic_apply _,
      fun | _, _, _, _, _, rfl => rfl⟩
  case putstatic =>
    cases decoded
    exact ⟨rfl, fun _ _ => Effect.putStatic_apply _,
      fun | _, _, _, _, _, rfl => rfl⟩
  case getfield =>
    cases decoded
    exact ⟨rfl, fun _ _ => Effect.getField_apply _,
      fun | _, _, _, _, _, rfl => rfl⟩
  case ldcW | ldc | invokevirtual | invokespecial | invokestatic | checkcast | instanceof
      | putfield | invokeinterface | invokedynamic | new_ | anewarray | multianewarray =>
    cases decoded
    exact ⟨rfl, fun _ _ => of_levels rfl rfl rfl, fun | _, _, _, _, _, rfl => rfl⟩
  all_goals
    cases decoded
    exact ⟨rfl, fun _ _ => of_levels rfl rfl rfl, nofun⟩

end Method

namespace Translator

def Result.instruction (res : Result) (index : Int) : Option Prepared :=
  if 0 ≤ index ∧ index < res.codeSize then res.code index else none

inductive Entered (prep : Translator) (res : Result) : Int → Nat → Prop
  | start : Entered prep res 0 0
  | next {index : Int} {level : Nat} {prepared : Prepared} :
      Entered prep res index level → res.instruction index = some prepared →
      prepared.opcode.control = .next ∨ prepared.opcode.control = .branch →
      Entered prep res (index + 1)
        (prepared.opcode.dispatchLevel prep.method.peekIsFieldLong prepared.operand level)
  | jump {index dest : Int} {level : Nat} {prepared : Prepared} :
      Entered prep res index level → res.instruction index = some prepared →
      prepared.opcode.control.jumps → some dest ∈ prepared.operand.destinations →
      Entered prep res dest 0
  /-- `ret` continues after the `jsr` that has stored its own address. -/
  | ret {index : Int} {level : Nat} {prepared : Prepared} :
      Entered prep res index level → res.instruction index = some prepared →
      prepared.opcode.control = .jsr → Entered prep res (index + 1) 0
  | handler {dest : Int} : some dest ∈ res.handlers → Entered prep res dest 0

structure Agrees (prep : Translator) (res : Result) : Prop where
  entered : ∀ {index level}, prep.Entered res index level →
    index < res.codeSize → ∃ prepared, res.instruction index = some prepared ∧
      prepared.depth = level ∧
      -- An instruction that will be rewritten keeps the depth for the handler that takes
      -- its place.
      (prepared.opcode ≠ .nop → ∀ index byte depth,
        prepared.operand = .rewrite index byte depth → depth = level)
  targets : ∀ {dest number}, prep.Join dest → prep.Number dest number →
    ∃ prepared, res.instruction number = some prepared ∧ prepared.depth = 0

/-- The map has the numbers of destinations in full, and the exception table those of
handlers. -/
structure Near (prep : Translator) : Prop where
  targets : ∀ {dest number}, prep.Target prep.method.codeLen dest → prep.Number dest number →
    number < 2 ^ 15
  handlers : ∀ {handler number}, handler ∈ prep.method.handlers → prep.Number handler number →
    number < 2 ^ 16

section
variable {prep : Translator} {res : Result} {depths : Nat → Option Nat}
  {final : Visit} {visits : List Visit}

theorem fetchAt_faithful (fetched : prep.fetchAt pc = some instr) (positive : 0 < instr.length) :
    instr.Faithful prep.method := by
  by_cases pair : prep.Pair pc
  · obtain ⟨field, isField⟩ := isSome_iff_exists.mp pair.2
    cases fetched.symm.trans (Method.fetch_pair pair.1 isField)
    refine ⟨?_, fun _ _ => ?_, nofun⟩ <;> dsimp only <;>
      split_ifs
    · rfl
    · rfl
    · exact of_levels rfl rfl rfl
    · exact of_levels rfl rfl rfl
  · obtain ⟨opcode, _, decoded⟩ :=
      bind_eq_some_iff.mp ((fetchAt_single pair).symm.trans fetched)
    exact Method.decode_faithful decoded positive

inductive Reached (prep : Translator) (res : Result) (final : Visit)
    (visits : List Visit) : Int → Nat → Prop
  | visit {visit : Visit} : visit ∈ final :: visits →
      Reached prep res final visits visit.index visit.depth
  | nop {visit next : Visit} {instr : Instruction} {operand : Operand} :
      visit ∈ visits → next ∈ final :: visits → next.index = visit.index + 2 → next.depth = 0 →
      res.code (visit.index + 1) = some ⟨prep.leaves instr visit.depth, .nop, operand⟩ →
      Reached prep res final visits (visit.index + 1) (prep.leaves instr visit.depth)

variable {index : Int} {level : Nat}

theorem Result.instruction_eq_some (isInstruction : res.instruction index = some prepared) :
    0 ≤ index ∧ index < res.codeSize ∧ res.code index = some prepared := by
  rw [Result.instruction] at isInstruction
  split_ifs at isInstruction with inside
  exact ⟨inside.1, inside.2, isInstruction⟩

variable (cached : prep.useCache = true) (valid : prep.Translatable)
  (mapped : prep.Mapped depths res.map final visits)
  (isSize : res.codeSize = final.index)
  (written : prep.Written res.code res.map final visits)
include valid mapped

theorem Mapped.joined (join : prep.Join dest) (number : prep.Number dest place) :
    ∃ visit ∈ visits, visit.depth = 0 ∧ visit.index = place := by
  obtain ⟨visit, mem, rfl, isIndex⟩ := mapped.visit_of_number valid number (valid.joins join)
  exact ⟨visit, mem, mapped.flat_visit valid (mem_cons_of_mem _ mem) join, isIndex⟩

include written isSize

theorem Mapped.instruction (mem : visit ∈ visits) :
    ∃ instr, prep.fetchAt visit.pc = some instr ∧ instr.Faithful prep.method ∧ visit.depth ≤ 2 ∧
      res.instruction visit.index =
        some ⟨visit.depth, instr.opcode, instr.place res.map visit.depth⟩ ∧
      Reached prep res final visits (visit.index + 1) (prep.leaves instr visit.depth) := by
  obtain ⟨start, inside, positive⟩ := mapped.inside valid mem
  obtain ⟨next, isNext, instr, fetched, _, stored, rest⟩ := written.emitted mem
  obtain ⟨_, path, _⟩ := mapped.path.upTo (mem_cons_of_mem _ mem)
  obtain ⟨_, _, _, _, bound, _⟩ := path.numbered
  obtain ⟨_, found, long, _⟩ := valid.fetches start inside
  cases found.symm.trans fetched
  refine ⟨instr, fetched, fetchAt_faithful fetched long, bound, ?_, ?_⟩
  · rw [Result.instruction, if_pos ⟨positive, isSize ▸ (mapped.path.lt valid mem).2⟩, stored]
  · rcases rest with ⟨isIndex, isDepth⟩ | ⟨isIndex, isDepth, isNop⟩
    · exact isIndex ▸ isDepth ▸ .visit isNext
    · exact .nop mem isNext isIndex isDepth isNop

theorem Reached.instruction (reached : Reached prep res final visits index level)
    (isInstruction : res.instruction index = some prepared) :
    (∃ visit ∈ visits, ∃ instr, prep.fetchAt visit.pc = some instr ∧
      instr.Faithful prep.method ∧ level ≤ 2 ∧
      prepared = ⟨level, instr.opcode, instr.place res.map level⟩ ∧
      Reached prep res final visits (index + 1) (prep.leaves instr level)) ∨
    (prepared.opcode = .nop ∧ prepared.depth = level ∧
      Reached prep res final visits (index + 1) 0) := by
  obtain ⟨_, inside, stored⟩ := Result.instruction_eq_some isInstruction
  cases reached with
  | visit mem =>
    rcases mem_cons.mp mem with isFinal | mem
    · rw [isFinal, isSize] at inside
      exact absurd inside (lt_irrefl _)
    · obtain ⟨instr, fetched, faithful, bound, found, next⟩ :=
        mapped.instruction valid isSize written mem
      cases isInstruction.symm.trans found
      exact .inl ⟨_, mem, instr, fetched, faithful, bound, rfl, next⟩
  | @nop visit next _ _ mem isNext isIndex isDepth isNop =>
    cases stored.symm.trans isNop
    refine .inr ⟨rfl, rfl, ?_⟩
    have isAfter : visit.index + 1 + 1 = next.index := by omega
    rw [isAfter, ← isDepth]
    exact .visit isNext

theorem Reached.exists (reached : Reached prep res final visits index level)
    (inside : index < res.codeSize) :
    ∃ prepared, res.instruction index = some prepared := by
  cases reached with
  | visit mem =>
    rcases mem_cons.mp mem with isFinal | mem
    · rw [isFinal, isSize] at inside
      exact absurd inside (lt_irrefl _)
    · obtain ⟨_, _, _, _, found, _⟩ := mapped.instruction valid isSize written mem
      exact ⟨_, found⟩
  | nop mem _ _ _ isNop =>
    have positive := (mapped.inside valid mem).2.2
    exact ⟨_, by rw [Result.instruction, if_pos ⟨by omega, inside⟩, isNop]⟩

include cached in
theorem Mapped.reached (near : prep.Near) (isHandlers : res.handlers =
      prep.method.handlers.map fun handler => (res.map handler).map (· % 2 ^ 16))
    (entered : prep.Entered res index level) :
    Reached prep res final visits index level := by
  have joined : ∀ {dest : Nat} {index : Int}, prep.Join dest → res.map dest = some index →
      ∃ number : Nat, prep.Number dest number ∧ index = toShort number ∧
        Reached prep res final visits number 0 := by
    intro dest index join isIndex
    obtain ⟨start, inside⟩ := mapped.unset dest index isIndex
    obtain ⟨number, isNumber⟩ := start.number
    obtain ⟨visit, mem, isZero, isPlace⟩ := mapped.joined valid join isNumber
    rw [mapped.map_of_number valid isNumber inside] at isIndex
    exact ⟨number, isNumber, (some.inj isIndex).symm,
      isPlace ▸ isZero ▸ .visit (mem_cons_of_mem _ mem)⟩
  induction entered with
  | start =>
    have mem := mapped.path.first_suffix.subset (mem_singleton_self _)
    exact .visit mem
  | next _ isInstruction isNext ih =>
    rcases ih.instruction valid mapped isSize written isInstruction with
      ⟨visit, _, instr, _, faithful, bound, rfl, next⟩ | ⟨isNop, _, next⟩
    · rw [leaves, if_pos cached, faithful.level res.map _ _ bound] at next
      exact next
    · rw [isNop]
      exact next
  | jump _ isInstruction jumps isDest ih =>
    rcases ih.instruction valid mapped isSize written isInstruction with
      ⟨visit, mem, instr, fetched, faithful, _, rfl, _⟩ | ⟨isNop, _⟩
    · rw [← faithful.control] at jumps
      rw [instr.destinations_place _ _ jumps] at isDest
      obtain ⟨dest, isTarget, isMapped⟩ := mem_map.mp isDest
      obtain ⟨start, inside, _⟩ := mapped.inside valid mem
      have target : prep.Target prep.method.codeLen dest :=
        ⟨_, _, start, inside, fetched, isTarget⟩
      obtain ⟨number, isNumber, isIndex, reached⟩ := joined (.inr target) isMapped
      have short := near.targets target isNumber
      rwa [isIndex, toShort_of_lt (by omega) (by omega)]
    · rw [isNop] at jumps
      cases jumps
  | @ret _ level _ _ isInstruction isJsr ih =>
    rcases ih.instruction valid mapped isSize written isInstruction with
      ⟨visit, _, instr, _, faithful, bound, rfl, next⟩ | ⟨_, _, next⟩
    · rw [leaves, if_pos cached, faithful.level res.map level _ bound,
        Opcode.dispatchLevel_of_jsr isJsr] at next
      exact next
    · exact next
  | handler isHandler =>
    rw [isHandlers] at isHandler
    obtain ⟨handler, mem, isMapped⟩ := mem_map.mp isHandler
    obtain ⟨entry, isEntry, rfl⟩ := map_eq_some_iff.mp isMapped
    obtain ⟨number, isNumber, isIndex, reached⟩ := joined (.inl mem) isEntry
    have short := near.handlers mem isNumber
    rwa [isIndex, toShort_emod, Int.emod_eq_of_lt (by omega) (by omega)]

end

end Translator

end JamVM.Interp
