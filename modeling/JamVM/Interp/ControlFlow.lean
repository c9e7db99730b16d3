import JamVM.Interp.PrepareSecond

/-! # The new code has the control flow of the method

Every instruction of the new code stands for one bytecode, or for an `aload_0` and the
`getfield` after it, and goes where these go. This fails where the map is not what the
branches need: it is not set inside a pair, and its entries are shorts.
-/

namespace JamVM.Interp

open Opcode Method
open List (all_eq_true mem_cons mem_cons_of_mem mem_cons_self)

inductive Method.Bytecode (method : Method) : Nat → Prop
  | first : Bytecode method 0
  | next {pc : Nat} {instr : Instruction} : Bytecode method pc → pc < method.codeLen →
      method.bytecode pc = some instr → Bytecode method (pc + instr.length)

/-- What verification says about the layout of a method: bytecodes fill the code, and
branches and handlers lead to bytecodes. -/
structure Method.Verifiable (method : Method) : Prop where
  decodes : ∀ {pc}, method.Bytecode pc → pc < method.codeLen →
    ∃ instr, method.bytecode pc = some instr ∧ 0 < instr.length ∧ pc + instr.length ≤ method.codeLen
  targets : ∀ {pc instr}, method.Bytecode pc → pc < method.codeLen →
    method.bytecode pc = some instr → ∀ dest ∈ instr.flow.targets,
      method.Bytecode dest ∧ dest < method.codeLen
  handlers : ∀ handler ∈ method.handlers, method.Bytecode handler ∧ handler < method.codeLen

namespace Method

variable (method : Method)

def follows (labels : List Nat) : List Nat → Bool
  | [] => true
  | pc :: rest =>
    (method.bytecode pc).any (fun instr =>
      0 < instr.length && pc + instr.length = rest.headD method.codeLen &&
        instr.flow.targets.all (· ∈ labels)) &&
      follows labels rest

def verify (labels : List Nat) : Bool :=
  labels.headD method.codeLen = 0 && labels.all (· < method.codeLen) &&
    method.follows labels labels && method.handlers.all (· ∈ labels)

variable {method} {labels positions : List Nat} {pc : Nat}

theorem follows_mem (holds : method.follows labels positions) (mem : pc ∈ positions) :
    ∃ instr, method.bytecode pc = some instr ∧ 0 < instr.length ∧
      (pc + instr.length ∈ positions ∨ pc + instr.length = method.codeLen) ∧
      ∀ dest ∈ instr.flow.targets, dest ∈ labels := by
  induction positions with
  | nil => cases mem
  | cons head rest ih =>
    simp only [follows, Bool.and_eq_true, Option.any_eq_true, decide_eq_true_eq,
      all_eq_true] at holds
    obtain ⟨⟨instr, decoded, ⟨positive, next⟩, targets⟩, holds⟩ := holds
    rcases mem_cons.mp mem with rfl | mem
    · refine ⟨instr, decoded, positive, ?_, targets⟩
      cases rest with
      | nil => exact .inr next
      | cons => exact .inl (next ▸ mem_cons_of_mem _ mem_cons_self)
    · obtain ⟨found, decoded, positive, next, targets⟩ := ih holds mem
      exact ⟨found, decoded, positive, next.imp_left (mem_cons_of_mem _), targets⟩

theorem bytecode_of_follows (holds : method.follows labels positions)
    (inside : ∀ pc ∈ positions, pc < method.codeLen)
    (begins : method.Bytecode (positions.headD method.codeLen)) (mem : pc ∈ positions) :
    method.Bytecode pc := by
  induction positions with
  | nil => cases mem
  | cons head rest ih =>
    rcases mem_cons.mp mem with equal | mem
    · exact equal ▸ begins
    · simp only [follows, Bool.and_eq_true, Option.any_eq_true, decide_eq_true_eq] at holds
      obtain ⟨⟨instr, decoded, ⟨_, next⟩, _⟩, holds⟩ := holds
      refine ih holds (fun pc mem => inside pc (mem_cons_of_mem _ mem)) ?_ mem
      exact next ▸ .next begins (inside head mem_cons_self) decoded

variable (holds : method.verify labels = true)
include holds

theorem mem_of_verify (pos : method.Bytecode pc) : pc ∈ labels ∨ pc = method.codeLen := by
  simp only [verify, Bool.and_eq_true, decide_eq_true_eq] at holds
  obtain ⟨⟨⟨first, _⟩, follows⟩, _⟩ := holds
  induction pos with
  | first =>
    cases labels with
    | nil => exact .inr first.symm
    | cons => exact .inl (first ▸ mem_cons_self)
  | @next pc instr _ inside decoded ih =>
    rcases ih with mem | isEnd
    · obtain ⟨_, found, _, next, _⟩ := follows_mem follows mem
      cases found.symm.trans decoded
      exact next
    · exact absurd isEnd inside.ne

theorem bytecode_of_verify (mem : pc ∈ labels) : method.Bytecode pc := by
  simp only [verify, Bool.and_eq_true, decide_eq_true_eq, all_eq_true] at holds
  obtain ⟨⟨⟨first, inside⟩, follows⟩, _⟩ := holds
  exact bytecode_of_follows follows inside (first ▸ .first) mem

theorem verifiable_of_verify : method.Verifiable := by
  have positions : ∀ {pc}, method.Bytecode pc → pc < method.codeLen → pc ∈ labels :=
    fun pos inside => (mem_of_verify holds pos).resolve_right inside.ne
  have isBytecode : ∀ pc ∈ labels, method.Bytecode pc := fun pc => bytecode_of_verify holds
  simp only [verify, Bool.and_eq_true, decide_eq_true_eq, all_eq_true] at holds
  obtain ⟨⟨⟨_, inside⟩, follows⟩, handlers⟩ := holds
  have bytecode : ∀ pc ∈ labels, method.Bytecode pc ∧ pc < method.codeLen := fun pc mem =>
    ⟨isBytecode pc mem, inside pc mem⟩
  refine ⟨?_, ?_, fun handler isHandler => bytecode handler (handlers handler isHandler)⟩
  · intro pc pos within
    obtain ⟨instr, decoded, positive, next, _⟩ := follows_mem follows (positions pos within)
    refine ⟨instr, decoded, positive, ?_⟩
    rcases next with mem | isEnd
    · exact (inside _ mem).le
    · exact isEnd.le
  · intro pc instr pos within decoded dest isTarget
    obtain ⟨_, found, _, _, targets⟩ := follows_mem follows (positions pos within)
    cases found.symm.trans decoded
    exact bytecode dest (targets dest isTarget)

end Method

inductive Method.Consumes (method : Method) (pc : Nat) (instr : Instruction) : Nat → Prop
  | single : method.bytecode pc = some instr → Consumes method pc instr (pc + instr.length)
  | pair {load get : Instruction} : ofByte (method.byte pc) = some .aload0 →
      method.bytecode pc = some load →
      ofByte (method.byte (pc + load.length)) = some .getfield →
      method.bytecode (pc + load.length) = some get →
      instr.opcode = .getfieldThis ∨ instr.opcode = .getfieldThisRef →
      instr.flow = .next →
      Consumes method pc instr (pc + load.length + get.length)

namespace Translator

def Pair (prep : Translator) (pc : Nat) : Prop :=
  ofByte (prep.method.byte pc) = some .aload0 ∧
    (prep.method.fieldOfThis (prep.resolveField 0) pc).isSome

structure Regular (prep : Translator) : Prop where
  stable : ∀ {pc}, prep.method.Bytecode pc → ofByte (prep.method.byte pc) = some .aload0 → ∀ round,
    prep.method.fieldOfThis (prep.resolveField round) pc =
      prep.method.fieldOfThis (prep.resolveField 0) pc
  switches : prep.FlatSwitches
  loops : prep.CleanLoops

/-- Every destination has an instruction of its own, with a number that is a short. -/
def Addressed (prep : Translator) : Prop :=
  ∀ dest, prep.Target prep.method.codeLen dest → ∃ number, prep.Number dest number ∧ number < 2 ^ 15

section
variable {prep : Translator} {pc : Nat}

theorem fetchAt_single (single : ¬ prep.Pair pc) : prep.fetchAt pc = prep.method.bytecode pc := by
  apply fetch_single
  intro isLoad
  by_contra isField
  exact single ⟨isLoad, Option.isSome_iff_ne_none.mpr isField⟩

theorem fetchAt_pair (pair : prep.Pair pc) :
    ∃ instr, prep.fetchAt pc = some instr ∧ instr.length = 4 ∧ instr.flow = .next ∧
      (instr.opcode = .getfieldThis ∨ instr.opcode = .getfieldThisRef) := by
  obtain ⟨field, isField⟩ := Option.isSome_iff_exists.mp pair.2
  refine ⟨_, fetch_pair pair.1 isField, rfl, rfl, ?_⟩
  split_ifs
  · exact .inr rfl
  · exact .inl rfl

theorem Pair.getfield (pair : prep.Pair pc) :
    ofByte (prep.method.byte (pc + 1)) = some .getfield := by
  obtain ⟨field, isField⟩ := Option.isSome_iff_exists.mp pair.2
  exact getfield_of_fieldOfThis isField

variable (verifiable : prep.method.Verifiable)
include verifiable

theorem Pair.bytecode (pair : prep.Pair pc) (pos : prep.method.Bytecode pc)
    (inside : pc < prep.method.codeLen) :
    prep.method.Bytecode (pc + 1) ∧ pc + 1 < prep.method.codeLen ∧
      prep.method.Bytecode (pc + 4) ∧ pc + 4 ≤ prep.method.codeLen := by
  obtain ⟨load, isLoad, isOne, _⟩ := bytecode_load pair.1
  obtain ⟨get, isGet, isThree, _⟩ := bytecode_getfield pair.getfield
  obtain ⟨_, decoded, _, bound⟩ := verifiable.decodes pos inside
  cases isLoad.symm.trans decoded
  have second : prep.method.Bytecode (pc + 1) := isOne ▸ .next pos inside isLoad
  have secondInside : pc + 1 < prep.method.codeLen := by
    -- Beyond the code there is no `getfield`.
    by_contra outside
    have isNop : prep.method.byte (pc + 1) = 0 :=
      by simp [byte, List.getElem?_eq_none (Nat.le_of_not_lt outside)]
    have isGetfield := pair.getfield
    rw [isNop] at isGetfield
    cases isGetfield
  obtain ⟨_, decodedSecond, _, boundSecond⟩ := verifiable.decodes second secondInside
  cases isGet.symm.trans decodedSecond
  have third := Method.Bytecode.next second secondInside isGet
  rw [isThree] at third boundSecond
  exact ⟨second, secondInside, third, boundSecond⟩

theorem fetchAt_verified (pos : prep.method.Bytecode pc) (inside : pc < prep.method.codeLen) :
    ∃ instr, prep.fetchAt pc = some instr ∧ 0 < instr.length ∧
      pc + instr.length ≤ prep.method.codeLen ∧ prep.method.Bytecode (pc + instr.length) ∧
      ∀ dest ∈ instr.flow.targets, prep.method.Bytecode dest ∧ dest < prep.method.codeLen := by
  by_cases pair : prep.Pair pc
  · obtain ⟨instr, isPair, isFour, isNext, _⟩ := fetchAt_pair pair
    obtain ⟨_, _, fourth, bound⟩ := pair.bytecode verifiable pos inside
    rw [← isFour] at fourth bound
    exact ⟨instr, isPair, by omega, bound, fourth, by simp [isNext, Flow.targets]⟩
  · obtain ⟨instr, decoded, positive, bound⟩ := verifiable.decodes pos inside
    exact ⟨instr, (fetchAt_single pair).trans decoded, positive, bound,
      .next pos inside decoded, verifiable.targets pos inside decoded⟩

theorem Start.bytecode (start : prep.Start pc) : prep.method.Bytecode pc := by
  induction start with
  | first => exact .first
  | @next pc instr _ inside fetched pos =>
    obtain ⟨_, isInstruction, _, _, post, _⟩ := fetchAt_verified verifiable pos inside
    cases fetched.symm.trans isInstruction
    exact post

omit verifiable in
theorem start_or_inside (pos : prep.method.Bytecode pc) : prep.Start pc ∨
      ∃ load, prep.Start load ∧ load < prep.method.codeLen ∧ prep.Pair load ∧ pc = load + 1 := by
  induction pos with
  | first => exact .inl .first
  | @next pc instr _ inside decoded cases_ =>
    rcases cases_ with start | ⟨load, start, loadInside, pair, isPc⟩
    · by_cases pair : prep.Pair pc
      · obtain ⟨_, isLoad, isOne, _⟩ := bytecode_load pair.1
        cases decoded.symm.trans isLoad
        exact .inr ⟨pc, start, inside, pair, by rw [isOne]⟩
      · exact .inl (.next start inside ((fetchAt_single pair).trans decoded))
    · obtain ⟨_, isGet, isThree, _⟩ := bytecode_getfield pair.getfield
      subst isPc
      cases decoded.symm.trans isGet
      obtain ⟨made, isMade, isFour, _⟩ := fetchAt_pair pair
      have next := Start.next start loadInside isMade
      rw [isThree]
      rw [isFour] at next
      exact .inl next

theorem Join.inside (join : prep.Join pos) : pos < prep.method.codeLen := by
  rcases join with isHandler | ⟨pc, instr, start, inside, fetched, isTarget⟩
  · exact (verifiable.handlers pos isHandler).2
  · obtain ⟨_, isInstruction, _, _, _, targets⟩ :=
      fetchAt_verified verifiable (start.bytecode verifiable) inside
    cases fetched.symm.trans isInstruction
    exact (targets pos isTarget).2

theorem valid (regular : prep.Regular) : prep.Translatable where
  stable := by
    intro pc start inside round
    have pos := start.bytecode verifiable
    by_cases isLoad : ofByte (prep.method.byte pc) = some .aload0
    · have same := regular.stable pos isLoad round
      simp [fetchAt, fetch, isLoad, same]
    · rw [fetchAt, fetch_single fun isLoad' => absurd isLoad' isLoad,
        fetch_single fun isLoad' => absurd isLoad' isLoad]
  fetches := by
    intro pc start inside
    obtain ⟨instr, fetched, positive, bound, _⟩ :=
      fetchAt_verified verifiable (start.bytecode verifiable) inside
    exact ⟨instr, fetched, positive, bound⟩
  joins := fun join => join.inside verifiable
  __ := regular

end

/-! ## The new code -/

/-- The instruction at a number of the new code is that of a position: its operand has the
numbers of the positions it goes to, and the number after it, or after a `nop`, is that of
the bytecodes after those it stands for. -/
def Placed (prep : Translator) (res : Result) (pc number : Nat) : Prop :=
  number < res.codeSize ∧ ∃ instr depth post, prep.method.Consumes pc instr post ∧
    res.code number = some ⟨depth, instr.opcode, instr.place res.map depth⟩ ∧
    (∀ dest ∈ instr.flow.targets, dest < prep.method.codeLen ∧
      ∃ index : Nat, prep.Number dest index ∧ res.map dest = some (index : Int)) ∧
    ∃ next : Nat, prep.Number post next ∧ (post = prep.method.codeLen → next = res.codeSize) ∧
      (next = number + 1 ∨ next = number + 2 ∧
        ∃ nopDepth operand, res.code (number + 1) = some ⟨nopDepth, .nop, operand⟩)

structure Preserves (prep : Translator) (res : Result) : Prop where
  placed : ∀ {pc number}, prep.Number pc number → pc < prep.method.codeLen →
    prep.Placed res pc number
  starts : ∀ {pc}, prep.method.Bytecode pc → (∃ number, prep.Number pc number) ∨
    ∃ load number, prep.Number load number ∧ prep.Pair load ∧ pc = load + 1
  ordered : ∀ {pc later index number}, prep.Number pc index → prep.Number later number →
    (index < number ↔ pc < later)
  complete : ∀ index : Nat, index < res.codeSize → ∃ pc number, prep.Number pc number ∧
    pc < prep.method.codeLen ∧ (number = index ∨ number + 1 = index ∧
      ∃ nopDepth operand, res.code index = some ⟨nopDepth, .nop, operand⟩)

theorem Line.start {prep : Translator} (line : prep.Line bound pc depth count) :
    prep.Start pc := by
  induction line with
  | first => exact .first
  | next _ inside fetched _ ih | nop _ inside fetched _ _ ih => exact .next ih inside fetched

theorem Start.number {prep : Translator} (start : prep.Start pc) :
    ∃ number, prep.Number pc number := by
  induction start with
  | first => exact ⟨0, 0, .first⟩
  | @next pc instr _ inside fetched ih =>
    obtain ⟨number, depth, line⟩ := ih
    by_cases joined : prep.Join (pc + instr.length) ∧ prep.leaves instr depth ≠ 0
    · exact ⟨_, _, .nop line inside fetched joined.1 joined.2⟩
    · exact ⟨_, _, .next line inside fetched joined⟩

section
variable {prep : Translator} {res : Result} {depths : Nat → Option Nat}
  {final : Visit} {visits : List Visit}

variable {pc : Nat} {visit : Visit}

theorem fetchAt_consumes (fetched : prep.fetchAt pc = some instr) :
    prep.method.Consumes pc instr (pc + instr.length) := by
  by_cases pair : prep.Pair pc
  · obtain ⟨_, isPair, isFour, isNext, isOpcode⟩ := fetchAt_pair pair
    cases fetched.symm.trans isPair
    obtain ⟨load, isLoad, isOne, _⟩ := bytecode_load pair.1
    obtain ⟨get, isGet, isThree, _⟩ := bytecode_getfield pair.getfield
    have consumes := Method.Consumes.pair pair.1 isLoad (by rw [isOne]; exact pair.getfield)
      (by rw [isOne]; exact isGet) isOpcode isNext
    rw [isOne, isThree] at consumes
    rw [isFour]
    exact consumes
  · exact .single ((fetchAt_single pair).symm.trans fetched)

theorem Consumes.targets (consumes : prep.method.Consumes pc other post)
    (fetched : prep.fetchAt pc = some instr) (isTarget : dest ∈ instr.flow.targets) :
    dest ∈ other.flow.targets := by
  have single : ¬ prep.Pair pc := by
    intro pair
    obtain ⟨_, isPair, _, isNext, _⟩ := fetchAt_pair pair
    cases fetched.symm.trans isPair
    rw [isNext] at isTarget
    cases isTarget
  rw [fetchAt_single single] at fetched
  cases consumes with
  | single decoded =>
    cases fetched.symm.trans decoded
    exact isTarget
  | pair isLoad =>
    obtain ⟨_, decoded, _, isNext⟩ := bytecode_load isLoad
    cases fetched.symm.trans decoded
    rw [isNext] at isTarget
    cases isTarget

theorem Path.index_nonneg (path : prep.Path visit earlier) : 0 ≤ visit.index := by
  obtain ⟨_, _, _, _, _, positive, _⟩ := path.numbered
  exact positive

variable (valid : prep.Translatable)
  (mapped : prep.Mapped depths res.map final visits)
  (isSize : res.codeSize = final.index)
  (written : prep.Written res.code res.map final visits)
include valid mapped

namespace Mapped

theorem inside (mem : visit ∈ visits) :
    prep.Start visit.pc ∧ visit.pc < prep.method.codeLen ∧ 0 ≤ visit.index := by
  obtain ⟨_, path, _⟩ := mapped.path.upTo (mem_cons_of_mem _ mem)
  exact ⟨path.start, mapped.isEnd ▸ (mapped.path.lt valid mem).1, path.index_nonneg⟩

theorem flat_visit (mem : visit ∈ final :: visits) (join : prep.Join visit.pc) :
    visit.depth = 0 := by
  rcases mem_cons.mp mem with rfl | mem
  · exact absurd (valid.joins join) (by rw [mapped.isEnd]; exact Nat.lt_irrefl _)
  · have flat := mapped.flat visit.pc join
    rwa [(mapped.stored visit mem).1, Option.getD_some] at flat

theorem number (mem : visit ∈ final :: visits) :
    ∃ number : Nat, visit.index = number ∧ prep.Number visit.pc number := by
  obtain ⟨rest, path, subset⟩ := mapped.path.upTo mem
  obtain ⟨number, isIndex, line⟩ := path.exact fun other isOther =>
    mapped.flat_visit valid (subset isOther)
  exact ⟨number, isIndex, visit.depth, line⟩

theorem visit_of_line (line : prep.Line prep.Join pc depth count) :
    ∃ visit ∈ final :: visits, visit.pc = pc ∧ visit.depth = depth ∧ visit.index = count := by
  induction line with
  | first => exact ⟨_, mapped.path.first_suffix.subset mem_cons_self, rfl, rfl, rfl⟩
  | next _ inside fetched apart ih | nop _ inside fetched join cached ih =>
    obtain ⟨visit, mem, rfl, rfl, isIndex⟩ := ih
    have mem : visit ∈ visits := (mem_cons.mp mem).resolve_left fun isFinal =>
      absurd (isFinal ▸ mapped.isEnd) inside.ne
    obtain ⟨next, isNext, follows⟩ := mapped.path.next mem
    have flat := mapped.flat_visit valid isNext
    cases follows with
    | next _ isInstruction =>
      cases fetched.symm.trans isInstruction
      first
        | exact absurd (flat join) cached
        | exact ⟨_, isNext, rfl, rfl, by simp [isIndex]⟩
    | nop _ isInstruction cached' join' =>
      cases fetched.symm.trans isInstruction
      first
        | exact absurd ⟨join', cached'⟩ apart
        | exact ⟨_, isNext, rfl, rfl, by simp [isIndex]⟩

theorem visit_of_number (number : prep.Number pc index) (inside : pc < prep.method.codeLen) :
    ∃ visit ∈ visits, visit.pc = pc ∧ visit.index = index := by
  obtain ⟨depth, line⟩ := number
  obtain ⟨visit, mem, isPc, -, isIndex⟩ := mapped.visit_of_line valid line
  refine ⟨visit, (mem_cons.mp mem).resolve_left ?_, isPc, isIndex⟩
  rintro rfl
  exact inside.ne (isPc.symm.trans mapped.isEnd)

theorem map_of_number (number : prep.Number pc index) (inside : pc < prep.method.codeLen) :
    res.map pc = some (toShort index) := by
  obtain ⟨visit, mem, rfl, isIndex⟩ := mapped.visit_of_number valid number inside
  rw [(mapped.stored visit mem).2, isIndex]

theorem ordered (number : prep.Number pc index) (number' : prep.Number later index') :
    index < index' ↔ pc < later := by
  obtain ⟨_, line⟩ := number
  obtain ⟨_, line'⟩ := number'
  obtain ⟨visit, mem, rfl, -, isIndex⟩ := mapped.visit_of_line valid line
  obtain ⟨visit', mem', rfl, -, isIndex'⟩ := mapped.visit_of_line valid line'
  rw [← mapped.path.lt_iff valid mem mem', isIndex, isIndex', Int.ofNat_lt]

include isSize written

theorem placed (addressed : prep.Addressed) (number : prep.Number pc index)
    (inside : pc < prep.method.codeLen) : prep.Placed res pc index := by
  obtain ⟨visit, mem, rfl, isIndex⟩ := mapped.visit_of_number valid number inside
  obtain ⟨start, -, -⟩ := mapped.inside valid mem
  obtain ⟨next, isNext, instr, fetched, isAfter, stored, rest⟩ := written.emitted mem
  obtain ⟨after, isNextIndex, nextNumber⟩ := mapped.number valid isNext
  rw [isIndex] at stored rest
  refine ⟨isIndex ▸ isSize ▸ (mapped.path.lt valid mem).2, instr, visit.depth, next.pc,
    isAfter ▸ fetchAt_consumes fetched, stored, ?_, after, nextNumber, ?_, ?_⟩
  · intro dest isTarget
    have target : prep.Target prep.method.codeLen dest :=
      ⟨visit.pc, instr, start, inside, fetched, isTarget⟩
    obtain ⟨other, isOther, short⟩ := addressed dest target
    have destInside := valid.joins (.inr target)
    refine ⟨destInside, other, isOther, ?_⟩
    rw [mapped.map_of_number valid isOther destInside, toShort_of_lt (by omega) (by omega)]
  · intro isEnd
    rcases mem_cons.mp isNext with isFinal | isNext
    · rw [← isNextIndex, isFinal, isSize]
    · exact absurd isEnd (mapped.inside valid isNext).2.1.ne
  · rw [isNextIndex] at rest
    rcases rest with onward | ⟨isNop, _, nop⟩
    · exact .inl (by omega)
    · exact .inr ⟨by omega, _, _, nop⟩

theorem complete {index : Nat} (inside : index < res.codeSize) : ∃ pc number,
    prep.Number pc number ∧ pc < prep.method.codeLen ∧ (number = index ∨ number + 1 = index ∧
      ∃ nopDepth operand, res.code index = some ⟨nopDepth, .nop, operand⟩) := by
  obtain ⟨pre, mem, next, emitted, isIndex⟩ :=
    written.complete mapped.path (Int.natCast_nonneg index) (isSize ▸ inside)
  obtain ⟨number, isNumber, hasNumber⟩ := mapped.number valid (mem_cons_of_mem _ mem)
  refine ⟨pre.pc, number, hasNumber, (mapped.inside valid mem).2.1, ?_⟩
  rcases isIndex with isIndex | ⟨isIndex, isNext⟩
  · exact .inl (by omega)
  · obtain ⟨_, _, _, _, onward | ⟨_, _, nop⟩⟩ := emitted
    · omega
    · exact .inr ⟨by omega, _, _, isIndex ▸ nop⟩

theorem preserves_iff : prep.Preserves res ↔ prep.Addressed := by
  constructor
  · intro preserves dest target
    obtain ⟨pc, instr, start, inside, fetched, isTarget⟩ := target
    obtain ⟨number, isNumber⟩ := start.number
    obtain ⟨-, other, _, _, consumes, -, targets, -⟩ := preserves.placed isNumber inside
    obtain ⟨destInside, index, isIndex, isMap⟩ :=
      targets dest (Consumes.targets consumes fetched isTarget)
    rw [mapped.map_of_number valid isIndex destInside] at isMap
    have short := toShort_lt index
    rw [Option.some.inj isMap] at short
    exact ⟨index, isIndex, by omega⟩
  · intro addressed
    refine ⟨mapped.placed valid isSize written addressed, ?_, mapped.ordered valid,
      fun index inside => mapped.complete valid isSize written inside⟩
    intro pc pos
    rcases start_or_inside pos with start | ⟨load, start, _, pair, isPc⟩
    · exact .inl start.number
    · obtain ⟨number, isNumber⟩ := start.number
      exact .inr ⟨load, number, isNumber, pair, isPc⟩

end Mapped

end

variable {prep : Translator}

theorem prepare_mono (enough : fuel ≤ more) (ends : prep.prepare fuel = some res) :
    prep.prepare more = some res := by
  simp only [prepare, Option.bind_eq_bind, Option.bind_eq_some_iff] at ends ⊢
  obtain ⟨first, firstEnds, second, secondEnds, isResult⟩ := ends
  exact ⟨first, whileSome_mono enough firstEnds, second, whileSome_mono enough secondEnds, isResult⟩

theorem Line.count_le (verifiable : prep.method.Verifiable)
    (line : prep.Line bound pc depth count) : count ≤ 2 * pc := by
  induction line with
  | first => exact Nat.zero_le _
  | next line inside fetched _ ih | nop line inside fetched _ _ ih =>
    obtain ⟨_, isInstruction, positive, _⟩ :=
      fetchAt_verified verifiable (line.start.bytecode verifiable) inside
    cases fetched.symm.trans isInstruction
    omega

theorem regular_of_forward
    (stable : ∀ round pc, prep.resolveField round pc = prep.resolveField 0 pc)
    (forward : ∀ {pc instr}, prep.Start pc → pc < prep.method.codeLen →
      prep.fetchAt pc = some instr → ∀ dest ∈ instr.flow.targets, pc < dest) :
    prep.Regular where
  stable := by
    intro pc _ _ round
    rw [show prep.resolveField round = prep.resolveField 0 from
      funext (stable round)]
  switches := by
    intro pc instr start inside fetched _ dest isTarget back
    exact absurd (forward start inside fetched dest isTarget) (Nat.not_lt.mpr back)
  loops := by
    intro pc instr dest start inside fetched isJump back
    have isTarget : dest ∈ instr.flow.targets := by
      rw [Flow.targets_of_jump isJump]
      exact List.mem_singleton_self dest
    exact absurd (forward start inside fetched dest isTarget) (Nat.not_lt.mpr back)

def branchOverPair : Translator :=
  ⟨true, ⟨[27, 153, 0, 8, 42, 180, 0, 1, 172, 3, 172], false, [], fun _ => false⟩,
    fun _ _ => some ⟨.single, 16⟩⟩

theorem branchOverPair_verify :
    branchOverPair.method.verify [0, 1, 4, 5, 8, 9, 10] = true := by decide

theorem branchOverPair_targets (start : branchOverPair.Start pc)
    (inside : pc < branchOverPair.method.codeLen)
    (fetched : branchOverPair.fetchAt pc = some instr) :
    ∀ dest ∈ instr.flow.targets, dest = 9 ∧ pc < dest := by
  intro dest isTarget
  have pos := start.bytecode (Method.verifiable_of_verify branchOverPair_verify)
  have targets : ∀ pc ∈ [0, 1, 4, 5, 8, 9, 10],
      (branchOverPair.fetchAt pc).all (fun instr =>
        instr.flow.targets.all (fun dest => dest = 9 ∧ pc < dest)) = true := by decide
  have all := targets pc ((Method.mem_of_verify branchOverPair_verify pos).resolve_right inside.ne)
  rw [fetched, Option.all_some, all_eq_true] at all
  exact of_decide_eq_true (all dest isTarget)

theorem branchOverPair_regular : branchOverPair.Regular :=
  regular_of_forward (fun _ _ => rfl) fun start inside fetched dest isTarget =>
    (branchOverPair_targets start inside fetched dest isTarget).2

theorem branchOverPair_start : branchOverPair.Start 9 := by
  rcases start_or_inside (Method.bytecode_of_verify branchOverPair_verify
    (show 9 ∈ [0, 1, 4, 5, 8, 9, 10] by decide)) with start | ⟨load, _, _, pair, isLoad⟩
  · exact start
  · cases isLoad
    cases pair.1

theorem branchOverPair_addressed : branchOverPair.Addressed := by
  rintro dest ⟨pc, instr, start, inside, fetched, isTarget⟩
  obtain ⟨rfl, -⟩ := branchOverPair_targets start inside fetched dest isTarget
  obtain ⟨number, depth, line⟩ := branchOverPair_start.number
  have bound := line.count_le (Method.verifiable_of_verify branchOverPair_verify)
  exact ⟨number, ⟨depth, line⟩, by omega⟩

end Translator

end JamVM.Interp
