import JamVM.Interp.ControlFlow

/-! # Exception and line number tables

After its passes `prepare` replaces the positions in the tables of a method by the numbers
that the map has for them. The map has no entry for the end of the code.
-/

namespace JamVM.Interp

open List (mem_cons)

structure ExceptionTableEntry where
  startPc : Nat
  endPc : Nat
  handlerPc : Nat

def ExceptionTableEntry.positions (entry : ExceptionTableEntry) : List Nat :=
  [entry.startPc, entry.endPc, entry.handlerPc]

def ExceptionTableEntry.covers (entry : ExceptionTableEntry) (pc : Nat) : Bool :=
  pc ≥ entry.startPc && pc < entry.endPc

structure LineNoTableEntry where
  startPc : Nat
  lineNo : Nat

def lineNo (pc : Nat) : List LineNoTableEntry → Int
  | [] => -1
  | [entry] => entry.lineNo
  | entry :: rest => if pc < entry.startPc then lineNo pc rest else entry.lineNo

def mapPC2LineNo (table : List LineNoTableEntry) (pc : Nat) : Int := lineNo pc table.reverse

theorem lineNo_congr (each : List.Forall₂ (fun entry new => new.lineNo = entry.lineNo ∧
      (index < new.startPc ↔ pc < entry.startPc)) table new) :
    lineNo index new = lineNo pc table := by
  induction each with
  | nil => rfl
  | cons same rest ih =>
    cases rest with
    | nil => rw [lineNo, lineNo, same.1]
    | cons => simp only [lineNo, same.1, same.2, ih]

namespace Translator

def Result.position (res : Result) (pos : Nat) : Option Nat :=
  (res.map pos).map fun number => (number % 2 ^ 16).toNat

def Result.exceptionEntry (res : Result) (entry : ExceptionTableEntry) :
    Option ExceptionTableEntry := do
  some ⟨← res.position entry.startPc, ← res.position entry.endPc, ← res.position entry.handlerPc⟩

def Result.lineEntry (res : Result) (entry : LineNoTableEntry) : Option LineNoTableEntry := do
  some ⟨← res.position entry.startPc, entry.lineNo⟩

/-- The instruction of a number was generated from a bytecode: it has the number of the
bytecode or of the pair that this belongs to, or it is the `nop` after that. -/
def Stems (prep : Translator) (pc index : Nat) : Prop :=
  ∃ start number : Nat, prep.Number start number ∧ start < prep.method.codeLen ∧
    (pc = start ∨ prep.Pair start ∧ pc = start + 1) ∧
    (index = number ∨ index = number + 1 ∧ ∀ pos, ¬ prep.Number pos index)

def EntryKept (prep : Translator) (res : Result) (entry : ExceptionTableEntry) : Prop :=
  ∃ new, res.exceptionEntry entry = some new ∧ prep.Number entry.handlerPc new.handlerPc ∧
    ∀ pc index, prep.Stems pc index → new.covers index = entry.covers pc

def LinesKept (prep : Translator) (res : Result) (table : List LineNoTableEntry) : Prop :=
  ∃ new, table.mapM res.lineEntry = some new ∧
    ∀ pc index, prep.Stems pc index → mapPC2LineNo new index = mapPC2LineNo table pc

def Boundary (prep : Translator) (pos : Nat) : Prop := prep.Start pos ∧ pos < prep.method.codeLen

def Narrow (prep : Translator) (pos : Nat) : Prop :=
  ∀ number, prep.Number pos number → number < 2 ^ 16

section
variable {prep : Translator} {res : Result} {depths : Nat → Option Nat} {final : Visit}
  {visits : List Visit} (valid : prep.Translatable)
  (mapped : prep.Mapped depths res.map final visits)
include mapped

omit valid in
theorem Boundary.of_position (isPosition : res.position pos = some number) :
    prep.Boundary pos := by
  obtain ⟨index, isMap, -⟩ := Option.map_eq_some_iff.mp isPosition
  exact mapped.unset pos index isMap

include valid

theorem Boundary.position (boundary : prep.Boundary pos) (narrow : prep.Narrow pos) :
    ∃ number, prep.Number pos number ∧ res.position pos = some number := by
  obtain ⟨number, isNumber⟩ := boundary.1.number
  have less := narrow number isNumber
  refine ⟨number, isNumber, ?_⟩
  rw [Result.position, mapped.map_of_number valid isNumber boundary.2, Option.map_some,
    toShort_emod, Int.emod_eq_of_lt (by omega) (by omega), Int.toNat_natCast]

theorem Pair.inside_ne (pair : prep.Pair start) (isOwn : prep.Number start own)
    (isNumber : prep.Number pos number) : pos ≠ start + 1 := by
  rintro rfl
  obtain ⟨_, line⟩ := isNumber
  obtain ⟨_, ownLine⟩ := isOwn
  obtain ⟨visit, mem, isPc, -⟩ := mapped.visit_of_line valid line
  obtain ⟨rest, path, -⟩ := mapped.path.upTo mem
  obtain ⟨load, isLoad, rfl⟩ := path.covers valid ownLine.start (by omega)
  obtain ⟨next, isNext, follows⟩ := path.next isLoad
  obtain ⟨_, fetched, isFour, -⟩ := fetchAt_pair pair
  have after : next.pc = load.pc + 4 := by
    cases follows with
    | next _ isInstruction | nop _ isInstruction =>
      cases fetched.symm.trans isInstruction
      exact congrArg _ isFour
  rcases mem_cons.mp isNext with rfl | isNext
  · omega
  · have less := (path.lt valid isNext).1
    omega

theorem Stems.lt_iff (stems : prep.Stems pc index) (isNumber : prep.Number pos number) :
    index < number ↔ pc < pos := by
  obtain ⟨start, own, isOwn, inside, isPc, isIndex⟩ := stems
  have ordered := mapped.ordered valid isOwn isNumber
  have belongs : pc < pos ↔ start < pos := by
    rcases isPc with isPc | ⟨pair, isPc⟩
    · rw [isPc]
    · have ne := pair.inside_ne valid mapped isOwn isNumber
      omega
  rw [belongs, ← ordered]
  rcases isIndex with isIndex | ⟨isIndex, free⟩
  · rw [isIndex]
  · have ne : number ≠ index := fun equal => free pos (equal ▸ isNumber)
    omega

theorem entryKept_iff (entry : ExceptionTableEntry)
    (narrow : ∀ pos ∈ entry.positions, prep.Narrow pos) :
    prep.EntryKept res entry ↔ ∀ pos ∈ entry.positions, prep.Boundary pos := by
  simp only [ExceptionTableEntry.positions, List.forall_mem_cons, List.not_mem_nil, false_implies,
    implies_true, and_true] at narrow ⊢
  constructor
  · rintro ⟨new, isNew, -⟩
    simp only [Result.exceptionEntry, Option.bind_eq_bind, Option.bind_eq_some_iff] at isNew
    obtain ⟨_, isFirst, _, isLast, _, isCatch, -⟩ := isNew
    exact ⟨.of_position mapped isFirst, .of_position mapped isLast, .of_position mapped isCatch⟩
  · rintro ⟨starts, ends, handler⟩
    obtain ⟨first, firstNumber, isFirst⟩ := starts.position valid mapped narrow.1
    obtain ⟨last, lastNumber, isLast⟩ := ends.position valid mapped narrow.2.1
    obtain ⟨catches, isNumber, isCatch⟩ := handler.position valid mapped narrow.2.2
    refine ⟨⟨first, last, catches⟩, ?_, isNumber, fun pc index stems => ?_⟩
    · simp [Result.exceptionEntry, isFirst, isLast, isCatch]
    · have begins := stems.lt_iff valid mapped firstNumber
      have finishes := stems.lt_iff valid mapped lastNumber
      have above : first ≤ index ↔ entry.startPc ≤ pc := by omega
      simp [ExceptionTableEntry.covers, above, finishes]

theorem linesKept (table : List LineNoTableEntry)
    (narrow : ∀ entry ∈ table, prep.Narrow entry.startPc)
    (starts : ∀ entry ∈ table, prep.Boundary entry.startPc) : prep.LinesKept res table := by
  suffices ∃ new, table.mapM res.lineEntry = some new ∧ ∀ pc index, prep.Stems pc index →
        List.Forall₂ (fun entry new => new.lineNo = entry.lineNo ∧
          (index < new.startPc ↔ pc < entry.startPc)) table new by
    obtain ⟨new, isNew, each⟩ := this
    exact ⟨new, isNew, fun pc index stems => lineNo_congr (List.rel_reverse (each pc index stems))⟩
  induction table with
  | nil => exact ⟨[], rfl, fun _ _ _ => .nil⟩
  | cons entry rest ih =>
    obtain ⟨narrow, short⟩ := List.forall_mem_cons.mp narrow
    obtain ⟨boundary, others⟩ := List.forall_mem_cons.mp starts
    obtain ⟨new, isNew, each⟩ := ih short others
    obtain ⟨number, hasNumber, isNumber⟩ := boundary.position valid mapped narrow
    refine ⟨⟨number, entry.lineNo⟩ :: new, ?_, fun pc index stems => .cons ⟨rfl, ?_⟩
      (each pc index stems)⟩
    · simp [Result.lineEntry, isNumber, isNew]
    · exact stems.lt_iff valid mapped hasNumber

omit valid in
theorem LinesKept.boundary (kept : prep.LinesKept res table) :
    ∀ entry ∈ table, prep.Boundary entry.startPc := by
  obtain ⟨new, isNew, -⟩ := kept
  induction table generalizing new with
  | nil => simp
  | cons entry rest ih =>
    simp only [List.mapM_cons, Option.bind_eq_bind, Option.bind_eq_some_iff] at isNew
    obtain ⟨_, isEntry, others, isOthers, -⟩ := isNew
    simp only [Result.lineEntry, Option.bind_eq_bind, Option.bind_eq_some_iff] at isEntry
    obtain ⟨_, isPosition, -⟩ := isEntry
    exact List.forall_mem_cons.mpr ⟨.of_position mapped isPosition, ih others isOthers⟩

theorem stems_of_lt (isSize : res.codeSize = final.index)
    (written : prep.Written res.code res.map final visits) {index : Nat}
    (inside : index < res.codeSize) : ∃ pc, prep.Stems pc index := by
  obtain ⟨pc, number, isNumber, within, rfl | ⟨isIndex, _⟩⟩ :=
    mapped.complete valid isSize written inside
  · exact ⟨pc, pc, number, isNumber, within, .inl rfl, .inl rfl⟩
  · by_cases own : ∃ pos, prep.Number pos index
    · obtain ⟨pos, isOwn⟩ := own
      refine ⟨pos, pos, index, isOwn, ?_, .inl rfl, .inl rfl⟩
      obtain ⟨depth, line⟩ := isOwn
      obtain ⟨visit, mem, rfl, -, isPlace⟩ := mapped.visit_of_line valid line
      rcases mem_cons.mp mem with rfl | mem
      · omega
      · exact (mapped.inside valid mem).2.1
    · push Not at own
      exact ⟨pc, pc, number, isNumber, within, .inl rfl, .inr ⟨isIndex.symm, own⟩⟩

end

end Translator

end JamVM.Interp
