import Mathlib.Data.DFinsupp.WellFounded
import JamVM.Interp.Prepare

/-! # The first pass

The rounds of the first pass follow the instructions of the method, and what they have
noted of the instructions before the current one is a path: each number is one more than
that of the instruction before, or two more with a `nop` between them where paths meet.
Going back to a destination cuts the path and puts the `nop` in. The pass ends, because
every time it goes back a depth becomes zero while no earlier one changes.
-/

namespace JamVM.Interp.Translator

open Option Function List

variable (prep : Translator)

def fetchAt (pc : Nat) : Option Instruction := prep.method.fetch (prep.resolveField 0) pc

inductive Start : Nat → Prop
  | first : Start 0
  | next {pc : Nat} {instr : Instruction} : Start pc →
      pc < prep.method.codeLen → prep.fetchAt pc = some instr →
      Start (pc + instr.length)

def Target (bound pos : Nat) : Prop :=
  ∃ pc instr, prep.Start pc ∧ pc < bound ∧ prep.fetchAt pc = some instr ∧ pos ∈ instr.flow.targets

/-- A handler, or a destination of an instruction before `bound`. -/
def Known (bound pos : Nat) : Prop := pos ∈ prep.method.handlers ∨ prep.Target bound pos

def Join (pos : Nat) : Prop := prep.Known prep.method.codeLen pos

/-- The depth of a position and the number of its instruction, when the cache is emptied at
the positions that are known. -/
inductive Line (known : Nat → Prop) : Nat → Nat → Nat → Prop
  | first : Line known 0 0 0
  | next {pc depth count : Nat} {instr : Instruction} : Line known pc depth count →
      pc < prep.method.codeLen → prep.fetchAt pc = some instr →
      ¬ (known (pc + instr.length) ∧ prep.leaves instr depth ≠ 0) →
      Line known (pc + instr.length) (prep.leaves instr depth) (count + 1)
  | nop {pc depth count : Nat} {instr : Instruction} : Line known pc depth count →
      pc < prep.method.codeLen → prep.fetchAt pc = some instr →
      known (pc + instr.length) → prep.leaves instr depth ≠ 0 →
      Line known (pc + instr.length) 0 (count + 2)

/-- The number that the instruction of a position has when all joins are known. -/
def Number (pc number : Nat) : Prop := ∃ depth, prep.Line prep.Join pc depth number

/-- Known at `bound` when the scan has gone back to `dest` and forward again. -/
def KnownFrom (dest bound pos : Nat) : Prop := prep.Known bound pos ∨ pos = dest

/-- The cache is empty at a position by itself after the scan has gone back to `dest`. -/
def Clear (dest pos : Nat) : Prop :=
  ∀ pc instr depth count, prep.Line (prep.KnownFrom dest pos) pc depth count →
    prep.fetchAt pc = some instr → pos = pc + instr.length → prep.leaves instr depth = 0

/-- A switch goes back only to positions that were numbered with an empty cache. -/
def FlatSwitches : Prop :=
  ∀ {pc instr}, prep.Start pc → pc < prep.method.codeLen → prep.fetchAt pc = some instr →
    instr.flow.jump = none → ∀ dest ∈ instr.flow.targets, dest ≤ pc →
    ∀ depth count, prep.Line (prep.Known pc) dest depth count → depth = 0

/-- A jump that makes the first pass go back erases no depth that is needed, and finds a
number that is a short. -/
def CleanLoops : Prop :=
  ∀ {pc instr dest}, prep.Start pc → pc < prep.method.codeLen → prep.fetchAt pc = some instr →
    instr.flow.jump = some dest → dest ≤ pc →
    ∀ depth count, prep.Line (prep.Known pc) dest depth count → 0 < depth →
      (∀ number, prep.Number dest number → number < 2 ^ 15) ∧
      ∀ pos, prep.Start pos → dest < pos → pos ≤ pc → prep.Known dest pos → prep.Clear dest pos

structure Translatable : Prop where
  stable : ∀ {pc}, prep.Start pc → pc < prep.method.codeLen → ∀ round,
    prep.method.fetch (prep.resolveField round) pc = prep.fetchAt pc
  fetches : ∀ {pc}, prep.Start pc → pc < prep.method.codeLen →
    ∃ instr, prep.fetchAt pc = some instr ∧ 0 < instr.length ∧
      pc + instr.length ≤ prep.method.codeLen
  joins : ∀ {pos}, prep.Join pos → pos < prep.method.codeLen
  switches : prep.FlatSwitches
  loops : prep.CleanLoops

theorem Known.mono {prep : Translator} (known : prep.Known bound pos) (le : bound ≤ other) :
    prep.Known other pos :=
  known.imp id fun ⟨pc, instr, start, below, rest⟩ => ⟨pc, instr, start, below.trans_le le, rest⟩

/-! ## Depths -/

variable {depth : Nat}

theorem leaves_le (instr : Instruction) (le : depth ≤ 2) : prep.leaves instr depth ≤ 2 := by
  rw [leaves]
  split_ifs
  · cases instr.effect <;> simp only [Effect.apply] <;> (try split_ifs) <;> omega
  · omega

theorem leaves_mono (instr : Instruction) (le : depth ≤ deeper) (bound : deeper ≤ 2) :
    prep.leaves instr depth ≤ prep.leaves instr deeper := by
  rw [leaves, leaves]
  split_ifs
  · cases instr.effect with
    | getStatic isLong | putStatic isLong | getField isLong =>
      cases isLong <;> simp only [Effect.apply, Bool.or_true, Bool.or_false,
        decide_eq_true_eq, if_true] <;> (try split_ifs) <;> omega
    | push | two | clear | pop | negate | one | keep =>
      simp only [Effect.apply]
      (try split_ifs) <;> omega
  · exact Nat.le_refl 0

/-! ## Paths -/

structure Visit where
  pc : Nat
  depth : Nat
  index : Int

def visitOf (scan : Scan) : Visit := ⟨scan.pc, scan.cache, scan.insCount⟩

/-- The visits before a position that no later round has undone, the latest one first. -/
def settled : Nat → List Visit → List Visit
  | _, [] => []
  | bound, visit :: earlier =>
    if visit.pc < bound then visit :: settled visit.pc earlier else settled bound earlier

theorem settled_subset (bound : Nat) (visits : List Visit) : settled bound visits ⊆ visits := by
  induction visits generalizing bound with
  | nil => exact List.Subset.refl _
  | cons visit earlier ih =>
    rw [settled]
    split_ifs
    · exact List.cons_subset_cons _ (ih _)
    · exact List.subset_cons_of_subset _ (ih _)

theorem settled_settled (visits : List Visit) (le : bound ≤ other) :
    settled bound (settled other visits) = settled bound visits := by
  induction visits generalizing bound other with
  | nil => rfl
  | cons visit earlier ih =>
    rw [settled, settled]
    split_ifs with pre within
    · rw [settled, if_pos within, ih le_rfl]
    · rw [settled, if_neg within, ih (Nat.le_of_not_lt within)]
    · omega
    · exact ih le

theorem settled_cons (visit : Visit) (earlier : List Visit) :
    settled bound (visit :: settled visit.pc earlier) = settled bound (visit :: earlier) := by
  rw [settled, settled]
  split_ifs with pre
  · rw [settled_settled _ le_rfl]
  · exact settled_settled _ (Nat.le_of_not_lt pre)

inductive Follows : Visit → Visit → Prop
  | next {visit : Visit} {instr : Instruction} :
      visit.pc < prep.method.codeLen → prep.fetchAt visit.pc = some instr →
      Follows visit ⟨visit.pc + instr.length, prep.leaves instr visit.depth, visit.index + 1⟩
  | nop {visit : Visit} {instr : Instruction} :
      visit.pc < prep.method.codeLen → prep.fetchAt visit.pc = some instr →
      prep.leaves instr visit.depth ≠ 0 →
      prep.Join (visit.pc + instr.length) →
      Follows visit ⟨visit.pc + instr.length, 0, visit.index + 2⟩

inductive Path : Visit → List Visit → Prop
  | first : Path ⟨0, 0, 0⟩ []
  | step {visit next : Visit} {earlier : List Visit} : Path visit earlier →
      prep.Follows visit next → Path next (visit :: earlier)

variable {prep}

namespace Path

variable {visit other : Visit} {earlier : List Visit}

section
variable (path : prep.Path visit earlier)
include path

theorem start : prep.Start visit.pc := by
  induction path with
  | first => exact .first
  | step _ follows ih =>
    cases follows with
    | next inside fetched | nop inside fetched => exact .next ih inside fetched

theorem upTo (mem : other ∈ visit :: earlier) :
    ∃ rest, prep.Path other rest ∧ other :: rest ⊆ visit :: earlier := by
  induction path with
  | first =>
    cases mem_singleton.mp mem
    exact ⟨[], .first, fun _ mem => mem⟩
  | step path follows ih =>
    rcases mem_cons.mp mem with rfl | mem
    · exact ⟨_, .step path follows, fun _ mem => mem⟩
    · obtain ⟨rest, upTo, subset⟩ := ih mem
      exact ⟨rest, upTo, fun _ inRest => mem_cons_of_mem _ (subset inRest)⟩

theorem cached (cached : 0 < visit.depth) :
    ∃ pre rest instr, earlier = pre :: rest ∧ prep.Path pre rest ∧ pre.pc < prep.method.codeLen ∧
      prep.fetchAt pre.pc = some instr ∧
      visit = ⟨pre.pc + instr.length, prep.leaves instr pre.depth, pre.index + 1⟩ := by
  cases path with
  | first => cases cached
  | step path follows =>
    cases follows with
    | next inside fetched => exact ⟨_, _, _, rfl, path, inside, fetched, rfl⟩
    | nop => cases cached

theorem deep {known : Nat → Prop}
    (flat : ∀ other ∈ visit :: earlier, known other.pc → other.depth = 0) :
    ∃ depth count, prep.Line known visit.pc depth count ∧ visit.depth ≤ depth ∧ depth ≤ 2 := by
  induction path with
  | first => exact ⟨0, 0, .first, by simp⟩
  | @step visit next _ _ follows ih =>
    obtain ⟨depth, count, line, deep, below⟩ := ih fun other mem =>
      flat other (mem_cons_of_mem _ mem)
    have atNext := flat next mem_cons_self
    cases follows with
    | @next instr inside fetched | @nop instr inside fetched _ _ =>
      by_cases joined : known (visit.pc + instr.length) ∧ prep.leaves instr depth ≠ 0
      · exact ⟨_, _, .nop line inside fetched joined.1 joined.2, (atNext joined.1).le,
          Nat.zero_le _⟩
      · refine ⟨_, _, .next line inside fetched joined, ?_, prep.leaves_le instr below⟩
        first
          | exact prep.leaves_mono instr deep below
          | exact Nat.zero_le _

/-- The numbers are at most those of the line that knows all joins: where that line is less
deep, it has put in a `nop`. -/
theorem numbered : ∃ depth count, prep.Line prep.Join visit.pc depth count ∧
      depth ≤ visit.depth ∧ visit.depth ≤ 2 ∧ 0 ≤ visit.index ∧
      (visit.index + 1 ≤ count ∨ visit.depth = depth ∧ visit.index ≤ count) := by
  induction path with
  | first => exact ⟨0, 0, .first, by simp⟩
  | @step visit next _ _ follows ih =>
    obtain ⟨depth, count, line, deep, bound, positive, short⟩ := ih
    cases follows with
    | @next instr inside fetched =>
      have below := prep.leaves_le instr bound
      by_cases joined : prep.Join (visit.pc + instr.length) ∧ prep.leaves instr depth ≠ 0
      · exact ⟨_, _, .nop line inside fetched joined.1 joined.2, Nat.zero_le _, below,
          by dsimp only; omega, by dsimp only; push_cast; omega⟩
      · refine ⟨_, _, .next line inside fetched joined, prep.leaves_mono instr deep bound, below,
          by dsimp only; omega, ?_⟩
        rcases short with less | ⟨same, short⟩
        · exact .inl (by dsimp only; push_cast; omega)
        · exact .inr ⟨by dsimp only; rw [same], by dsimp only; push_cast; omega⟩
    | @nop instr inside fetched cached join =>
      by_cases deeper : prep.leaves instr depth = 0
      · have differs : visit.depth ≠ depth := fun same => cached (same ▸ deeper)
        refine ⟨_, _, .next line inside fetched fun joined => joined.2 deeper, deeper.le,
          Nat.zero_le _, by dsimp only; omega, .inr ⟨deeper.symm, ?_⟩⟩
        dsimp only
        push_cast
        omega
      · exact ⟨_, _, .nop line inside fetched join deeper, le_rfl, Nat.zero_le _,
          by dsimp only; omega, .inr ⟨rfl, by dsimp only; push_cast; omega⟩⟩

theorem exact (known : ∀ other ∈ visit :: earlier, prep.Join other.pc → other.depth = 0) :
    ∃ number : Nat, visit.index = number ∧
      prep.Line prep.Join visit.pc visit.depth number := by
  induction path with
  | first => exact ⟨0, rfl, .first⟩
  | @step visit next _ _ follows ih =>
    obtain ⟨number, isIndex, line⟩ := ih fun other mem => known other (mem_cons_of_mem _ mem)
    have atNext := known next mem_cons_self
    cases follows with
    | next inside fetched =>
      exact ⟨number + 1, by simp [isIndex],
        .next line inside fetched fun joined => joined.2 (atNext joined.1)⟩
    | nop inside fetched cached join =>
      exact ⟨number + 2, by simp [isIndex], .nop line inside fetched join cached⟩

theorem clear (clear : prep.Clear dest visit.pc)
    (flat : ∀ other ∈ earlier, prep.KnownFrom dest visit.pc other.pc → other.depth = 0) :
    visit.depth = 0 := by
  cases path with
  | first => rfl
  | step path follows =>
    cases follows with
    | next inside fetched =>
      obtain ⟨depth, count, line, deep, below⟩ := path.deep flat
      have empty := clear _ _ depth count line fetched rfl
      exact Nat.le_zero.mp (empty ▸ prep.leaves_mono _ deep below)
    | nop => rfl

theorem next (mem : other ∈ earlier) : ∃ next ∈ visit :: earlier, prep.Follows other next := by
  induction path with
  | first => cases mem
  | step path follows ih =>
    rcases mem_cons.mp mem with rfl | mem
    · exact ⟨_, mem_cons_self, follows⟩
    · obtain ⟨next, isNext, follows⟩ := ih mem
      exact ⟨next, mem_cons_of_mem _ isNext, follows⟩

end

end Path

section
variable (valid : prep.Translatable) {visit : Visit} {earlier : List Visit}
include valid

theorem Follows.bounds {next : Visit} (follows : prep.Follows visit next)
    (start : prep.Start visit.pc) : visit.pc < next.pc ∧ next.pc ≤ prep.method.codeLen := by
  cases follows with
  | next inside fetched | nop inside fetched =>
    obtain ⟨instr, isInstruction, positive, bound⟩ := valid.fetches start inside
    cases fetched.symm.trans isInstruction
    exact ⟨Nat.lt_add_of_pos_right positive, bound⟩

section
variable (path : prep.Path visit earlier)
include path

theorem Path.inside : visit.pc ≤ prep.method.codeLen := by
  cases path with
  | first => exact Nat.zero_le _
  | step path follows => exact (follows.bounds valid path.start).2

theorem Path.lt (mem : other ∈ earlier) : other.pc < visit.pc ∧ other.index < visit.index := by
  induction path with
  | first => cases mem
  | step path follows ih =>
    have pos := (follows.bounds valid path.start).1
    have index : ∀ {visit next : Visit}, prep.Follows visit next → visit.index < next.index := by
      intro visit next follows
      cases follows <;> dsimp only <;> omega
    have index := index follows
    rcases mem_cons.mp mem with rfl | mem
    · exact ⟨pos, index⟩
    · obtain ⟨pre, smaller⟩ := ih mem
      exact ⟨by omega, by omega⟩

theorem Path.lt_iff (mem : other ∈ visit :: earlier) (mem' : another ∈ visit :: earlier) :
    other.index < another.index ↔ other.pc < another.pc := by
  induction path with
  | first =>
    cases mem_singleton.mp mem
    cases mem_singleton.mp mem'
    simp
  | step path follows ih =>
    have whole := Path.step path follows
    rcases mem_cons.mp mem with rfl | inRest <;> rcases mem_cons.mp mem' with rfl | inRest'
    · simp
    · have less := whole.lt valid inRest'
      omega
    · have less := whole.lt valid inRest
      omega
    · exact ih inRest inRest'

theorem Path.settled : settled visit.pc earlier = earlier := by
  induction path with
  | first => rfl
  | step path follows ih =>
    rw [Translator.settled, if_pos (follows.bounds valid path.start).1, ih]

theorem Path.back (mem : other ∈ visit :: earlier) :
    prep.Path other (Translator.settled other.pc earlier) := by
  induction path with
  | first =>
    cases mem_singleton.mp mem
    exact .first
  | @step pre _ _ path follows ih =>
    rcases mem_cons.mp mem with rfl | mem
    · rw [(Path.step path follows).settled valid]
      exact .step path follows
    · have back : ¬ pre.pc < other.pc := by
        rcases mem_cons.mp mem with equal | mem
        · exact equal ▸ Nat.lt_irrefl _
        · exact Nat.lt_asymm (path.lt valid mem).1
      rw [Translator.settled, if_neg back]
      exact ih mem

theorem Path.covers (start : prep.Start pc) (pre : pc < visit.pc) :
    ∃ other ∈ earlier, other.pc = pc := by
  suffices ∀ {pc}, prep.Start pc → (∃ other ∈ visit :: earlier, other.pc = pc) ∨ visit.pc < pc by
    rcases this start with ⟨other, mem, isPc⟩ | post
    · rcases mem_cons.mp mem with equal | mem
      · subst equal isPc
        exact absurd pre (Nat.lt_irrefl _)
      · exact ⟨other, mem, isPc⟩
    · omega
  intro pc start
  induction start with
  | first =>
    left
    clear pre
    induction path with
    | first => exact ⟨_, mem_cons_self, rfl⟩
    | step _ _ ih =>
      obtain ⟨other, mem, isPc⟩ := ih
      exact ⟨other, mem_cons_of_mem _ mem, isPc⟩
  | @next pc instr start inside fetched ih =>
    obtain ⟨_, isInstruction, positive, _⟩ := valid.fetches start inside
    cases fetched.symm.trans isInstruction
    rcases ih with ⟨other, mem, isPc⟩ | post
    · rcases mem_cons.mp mem with equal | mem
      · subst equal isPc
        exact .inr (Nat.lt_add_of_pos_right positive)
      · obtain ⟨next, isNext, follows⟩ := path.next mem
        refine .inl ⟨next, isNext, ?_⟩
        subst isPc
        cases follows with
        | next _ isInstruction | nop _ isInstruction =>
          cases fetched.symm.trans isInstruction
          rfl
    · exact .inr (by omega)

end

end

/-! ## Rounds -/

/-- A jump back to `dest` has erased the depth of a position, which the scan will come to with
an empty cache. No instruction before it makes the scan go back behind `dest`. -/
structure Pending (prep : Translator) (scan : Scan) (dest pos : Nat) : Prop where
  behind : dest ≤ scan.pc
  ahead : scan.pc ≤ pos
  flat : scan.cacheDepth dest = some 0
  clear : prep.Clear dest pos
  settled : ∀ target < dest, prep.Target pos target →
    ∀ depth, scan.cacheDepth target ≠ some (depth + 1)

theorem Pending.move {next : Scan} (pending : prep.Pending scan dest pos)
    (behind : dest ≤ next.pc) (ahead : next.pc ≤ pos) (flat : next.cacheDepth dest = some 0)
    (keeps : ∀ target < dest, next.cacheDepth target = some 0 ∨
      next.cacheDepth target = scan.cacheDepth target) : prep.Pending next dest pos where
  behind := behind
  ahead := ahead
  flat := flat
  clear := pending.clear
  settled target before reaches depth isDepth := by
    rcases keeps target before with isZero | same
    · cases isZero.symm.trans isDepth
    · exact pending.settled target before reaches depth (same.symm.trans isDepth)

def Noted (prep : Translator) (scan : Scan) (pos : Nat) : Prop :=
  scan.cacheDepth pos = some 0 ∨ scan.cacheDepth pos = none ∧ ∃ dest, prep.Pending scan dest pos

structure Steady (scan : Scan) : Prop where
  ahead : ∀ pos, scan.pc ≤ pos → scan.cacheDepth pos = none ∨ scan.cacheDepth pos = some 0
  resolved : scan.cacheDepth scan.pc = some 0 → scan.cache = 0
  numbered : ∀ {pos depth}, scan.cacheDepth pos = some (depth + 1) →
    ∃ index, scan.map pos = some index

structure Scanned (prep : Translator) (scan : Scan) (earlier : List Visit) : Prop
    extends Steady scan where
  path : prep.Path ⟨scan.pc, scan.cache, scan.insCount⟩ earlier
  stored : ∀ visit ∈ earlier, scan.cacheDepth visit.pc = some visit.depth ∧
    scan.map visit.pc = some (toShort visit.index)
  joined : ∀ pos, scan.pc ≤ pos → scan.cacheDepth pos = some 0 → prep.Join pos
  unset : ∀ pos index, scan.map pos = some index → prep.Start pos ∧ pos < prep.method.codeLen
  known : ∀ pos, prep.Start pos → prep.Known scan.pc pos → prep.Noted scan pos

def phase : Option Nat → Nat
  | none => 2
  | some 0 => 0
  | some (_ + 1) => 1

/-- What goes down: the depths in the order of their positions, then the distance from the
end. -/
def rank (prep : Translator) (scan : Scan) : Lex (Fin prep.method.codeLen → Nat) × Nat :=
  (toLex fun pos => phase (scan.cacheDepth pos), prep.method.codeLen - scan.pc)

abbrev Below (prep : Translator) : Lex (Fin prep.method.codeLen → Nat) × Nat →
      Lex (Fin prep.method.codeLen → Nat) × Nat → Prop :=
  Prod.Lex (· < ·) (· < ·)

theorem below_wellFounded (prep : Translator) : WellFounded prep.Below :=
  wellFounded_lt.prod_lex wellFounded_lt

section
variable {scan : Scan} {earlier : List Visit} {instr : Instruction}

theorem Scanned.recorded (valid : prep.Translatable) (scanned : prep.Scanned scan earlier) :
    ∀ visit ∈ visitOf scan :: earlier, scan.record.cacheDepth visit.pc = some visit.depth ∧
      scan.record.map visit.pc = some (toShort visit.index) := by
  intro visit mem
  rcases mem_cons.mp mem with rfl | mem
  · simp [Scan.record, visitOf]
  · have ne : visit.pc ≠ scan.pc := (scanned.path.lt valid mem).1.ne
    simpa [Scan.record, update_of_ne ne] using scanned.stored visit mem

theorem Scanned.not_cached (scanned : prep.Scanned scan earlier) (known : prep.Known scan.pc pos) :
    scan.cacheDepth pos ≠ some (depth + 1) := by
  intro cached
  obtain ⟨index, isSet⟩ := scanned.numbered cached
  rcases scanned.known pos (scanned.unset pos index isSet).1 known with known | ⟨known, _⟩ <;>
    cases known.symm.trans cached

theorem Scanned.flat (scanned : prep.Scanned scan earlier)
    (mem : visit ∈ visitOf scan :: earlier) (known : prep.Known scan.pc visit.pc) :
    visit.depth = 0 := by
  have stored (visit : Visit) (mem : visit ∈ earlier) (known : prep.Known scan.pc visit.pc) :
      visit.depth = 0 := by
    by_contra cached
    obtain ⟨depth, isDepth⟩ := Nat.exists_eq_succ_of_ne_zero cached
    exact scanned.not_cached known (isDepth ▸ (scanned.stored visit mem).1)
  rcases mem_cons.mp mem with rfl | mem
  · rcases scanned.known _ scanned.path.start known with isZero | ⟨_, dest, pending⟩
    · exact scanned.resolved isZero
    · refine scanned.path.clear pending.clear fun other isOther known => ?_
      rcases known with known | rfl
      · exact stored other isOther known
      · exact some.inj ((scanned.stored other isOther).1.symm.trans pending.flat)
  · exact stored visit mem known

theorem Scanned.deep (scanned : prep.Scanned scan earlier)
    (mem : visit ∈ visitOf scan :: earlier) :
    ∃ depth count, prep.Line (prep.Known scan.pc) visit.pc depth count ∧ visit.depth ≤ depth := by
  obtain ⟨rest, path, subset⟩ := scanned.path.upTo mem
  obtain ⟨depth, count, line, deep, _⟩ := path.deep fun other isOther =>
    scanned.flat (subset isOther)
  exact ⟨depth, count, line, deep⟩

variable {pos dest : Nat} {targets : List Nat}

theorem record_of_ne (ne : pos ≠ scan.pc) : scan.record.cacheDepth pos = scan.cacheDepth pos :=
  update_of_ne ne _ _

theorem Scanned.record_unset (scanned : prep.Scanned scan earlier)
    (inside : scan.pc < prep.method.codeLen) (pos : Nat) (index : Int)
    (isSet : scan.record.map pos = some index) : prep.Start pos ∧ pos < prep.method.codeLen := by
  obtain rfl | here := eq_or_ne pos scan.pc
  · exact ⟨scanned.path.start, inside⟩
  · exact scanned.unset pos index ((update_of_ne here _ _).symm.trans isSet)

theorem phase_le_two (depth : Option Nat) : phase depth ≤ 2 := by
  cases depth with
  | none => exact le_rfl
  | some depth => cases depth <;> simp [phase]

def noted (scan : Scan) (targets : List Nat) : Nat → Option Nat :=
  (scan.record.recache targets).cacheDepth

theorem noted_of_mem (mem : pos ∈ targets) : noted scan targets pos = some 0 := if_pos mem

theorem noted_of_not_mem (other : pos ∉ targets) :
    noted scan targets pos = scan.record.cacheDepth pos :=
  if_neg other

section
variable {targets : List Nat}
  (zero : ∀ dest ∈ targets, (scan.record.cacheDepth dest).getD 0 = 0)
include zero

theorem noted_of_record (known : scan.record.cacheDepth pos = some depth) :
    noted scan targets pos = some depth := by
  by_cases mem : pos ∈ targets
  · have isZero := zero pos mem
    rw [known, getD_some] at isZero
    rw [noted_of_mem mem, isZero]
  · rw [noted_of_not_mem mem, known]

theorem Scanned.noted_zero (scanned : prep.Scanned scan earlier)
    (known : scan.cacheDepth pos = some 0) : noted scan targets pos = some 0 := by
  apply noted_of_record zero
  obtain rfl | here := eq_or_ne pos scan.pc
  · rw [← scanned.resolved known]
    exact update_self _ _ _
  · rw [record_of_ne here, known]

end

theorem Steady.noted_phase (steady : Steady scan) (targets : List Nat) (pos : Nat) :
    phase (noted scan targets pos) ≤ phase (scan.cacheDepth pos) := by
  by_cases mem : pos ∈ targets
  · rw [noted_of_mem mem]
    exact Nat.zero_le _
  · rw [noted_of_not_mem mem]
    obtain rfl | here := eq_or_ne pos scan.pc
    · rcases steady.ahead scan.pc le_rfl with unknown | isZero
      · rw [unknown]
        exact phase_le_two _
      · rw [isZero, show scan.record.cacheDepth scan.pc = some scan.cache from
          update_self _ _ _, steady.resolved isZero]
    · rw [record_of_ne here]

theorem Scanned.noted_joined (scanned : prep.Scanned scan earlier)
    (joins : ∀ dest ∈ targets, prep.Join dest) (post : scan.pc < pos)
    (isZero : noted scan targets pos = some 0) : prep.Join pos := by
  by_cases mem : pos ∈ targets
  · exact joins pos mem
  · rw [noted_of_not_mem mem, record_of_ne post.ne'] at isZero
    exact scanned.joined pos post.le isZero

def erased (scan : Scan) (dest pos : Nat) : Option Nat :=
  if pos ∈ [dest] then some 0
  else if dest < pos ∧ pos ≤ scan.pc then none
  else scan.record.cacheDepth pos

theorem erased_dest (dest : Nat) : erased scan dest dest = some 0 := if_pos (mem_singleton.mpr rfl)

theorem erased_between (post : dest < pos) (pre : pos ≤ scan.pc) : erased scan dest pos = none := by
  rw [erased, if_neg (by simpa using post.ne'), if_pos ⟨post, pre⟩]

theorem erased_outside (behind : dest ≤ scan.pc) (outside : pos < dest ∨ scan.pc < pos) :
    erased scan dest pos = scan.cacheDepth pos := by
  have notDest : pos ∉ [dest] := by
    rw [mem_singleton]
    omega
  rw [erased, if_neg notDest, if_neg (by omega), record_of_ne (by omega)]

/-! ## What a round does -/

structure Onward (prep : Translator) (scan : Scan) (instr : Instruction) (next : Scan) : Prop where
  zero : ∀ dest, instr.flow.jump = some dest → ¬ 0 < (scan.record.cacheDepth dest).getD 0
  depth : next.cacheDepth = noted scan instr.flow.targets
  map : next.map = scan.record.map
  pc : next.pc = scan.pc + instr.length
  next : next.insCount = scan.insCount + 1 ∧ next.cache = prep.leaves instr scan.cache ∧
      (∀ depth, next.cacheDepth next.pc = some depth → depth = next.cache) ∨
    next.insCount = scan.insCount + 2 ∧ next.cache = 0 ∧
      ∃ depth, next.cacheDepth next.pc = some depth ∧ depth ≠ prep.leaves instr scan.cache

structure Back (scan : Scan) (instr : Instruction) (dest : Nat) (next : Scan) : Prop where
  jump : instr.flow.jump = some dest
  behind : dest ≤ scan.pc
  cached : ∃ depth, scan.record.cacheDepth dest = some (depth + 1)
  depth : next.cacheDepth = erased scan dest
  map : next.map = scan.record.map
  pc : next.pc = dest
  cache : next.cache = 0
  count : scan.record.map dest = some (next.insCount - 1)

theorem Back.target (back : Back scan instr dest post) : dest ∈ instr.flow.targets :=
  Flow.targets_of_jump back.jump ▸ mem_singleton.mpr rfl

def Round (prep : Translator) (scan : Scan) (instr : Instruction) (next : Scan) : Prop :=
  prep.Onward scan instr next ∨ ∃ dest, Back scan instr dest next

section
variable (steady : Steady scan)
include steady

theorem Steady.recorded (cached : scan.record.cacheDepth pos = some (depth + 1)) :
    ∃ index, scan.record.map pos = some index := by
  obtain rfl | here := eq_or_ne pos scan.pc
  · exact ⟨_, update_self _ _ _⟩
  · rw [record_of_ne here] at cached
    rw [show scan.record.map pos = scan.map pos from update_of_ne here _ _]
    exact steady.numbered cached

theorem Steady.behind (cached : scan.record.cacheDepth pos = some (depth + 1)) : pos ≤ scan.pc := by
  by_contra post
  rw [record_of_ne (by omega)] at cached
  rcases steady.ahead pos (by omega) with known | known <;> cases known.symm.trans cached

theorem Steady.round
    (fetched : prep.method.fetch (prep.resolveField scan.round) scan.pc = some instr) :
    ∃ next, prep.step .first scan = some next ∧ prep.Round scan instr next := by
  by_cases back : ∃ dest, instr.flow.jump = some dest ∧ 0 < (scan.record.cacheDepth dest).getD 0
  · obtain ⟨dest, isJump, cached⟩ := back
    obtain ⟨depth, isCached⟩ : ∃ depth, scan.record.cacheDepth dest = some (depth + 1) := by
      cases known : scan.record.cacheDepth dest with
      | none => simp [known] at cached
      | some depth =>
        rw [known, getD_some] at cached
        exact ⟨depth - 1, by rw [Nat.sub_add_cancel cached]⟩
    obtain ⟨index, isIndex⟩ := steady.recorded isCached
    have behind := steady.behind isCached
    let moved : Scan :=
      { scan.record with
        cacheDepth := fun pos =>
          if dest < pos ∧ pos ≤ scan.pc then none else scan.record.cacheDepth pos
        cache := depth + 1
        insCount := index - 1
        pc := dest }
    have rewinds : scan.record.rewind dest = some moved := by
      rw [Scan.rewind, if_pos (show dest ≤ scan.record.pc from behind), isCached, isIndex]
      rfl
    have isErased : (moved.recache instr.flow.targets).cacheDepth = erased scan dest := by
      rw [Flow.targets_of_jump isJump]
      rfl
    have conflict : (moved.recache instr.flow.targets).conflict = true :=
      (Scan.conflict_iff _).mpr ⟨0, by rw [isErased]; exact erased_dest dest,
        depth.succ_ne_zero.symm⟩
    have emits := Scan.emit_first (moved.recache instr.flow.targets)
      ⟨scan.cache, instr.opcode, instr.operand scan.cache⟩
    rw [if_pos conflict] at emits
    refine ⟨{ moved.recache instr.flow.targets with
        cache := 0, insCount := index + 1, round := scan.round + 1 }, ?_,
      .inr ⟨dest, isJump, behind, ⟨depth, isCached⟩, isErased, rfl, rfl, rfl, ?_⟩⟩
    · simp [Translator.step, fetched, advance, isJump, cached, rewinds, emits]
      exact Int.sub_add_cancel index 1
    · rw [isIndex, Int.add_sub_cancel]
  · have onward : ∀ dest, instr.flow.jump = some dest →
        ¬ 0 < (scan.record.cacheDepth dest).getD 0 := fun dest isJump cached =>
      back ⟨dest, isJump, cached⟩
    have moves : prep.advance instr scan.record = some (prep.forward instr scan.record) := by
      rw [advance]
      cases isJump : instr.flow.jump with
      | none => rfl
      | some dest => exact if_neg (onward dest isJump)
    have emits := Scan.emit_first ((prep.forward instr scan.record).recache instr.flow.targets)
      ⟨scan.cache, instr.opcode, instr.operand scan.cache⟩
    refine ⟨_, by simp [Translator.step, fetched, moves, emits]; rfl, ?_⟩
    split_ifs with conflict
    · refine .inl ⟨onward, rfl, rfl, rfl, .inr ⟨?_, rfl, (Scan.conflict_iff _).mp conflict⟩⟩
      change scan.insCount + 1 + 1 = _
      omega
    · refine .inl ⟨onward, rfl, rfl, rfl, .inl ⟨rfl, rfl, fun depth known => ?_⟩⟩
      by_contra differs
      exact conflict ((Scan.conflict_iff _).mpr ⟨depth, known, differs⟩)

variable {next : Scan} (round : prep.Round scan instr next) (positive : 0 < instr.length)
include round positive

theorem Round.keeps : Steady next := by
  rcases round with onward | ⟨dest, back⟩
  · refine ⟨?_, ?_, ?_⟩
    · intro pos post
      rw [onward.pc] at post
      rw [onward.depth]
      by_cases mem : pos ∈ instr.flow.targets
      · exact .inr (noted_of_mem mem)
      · rw [noted_of_not_mem mem, record_of_ne (by omega)]
        exact steady.ahead pos (by omega)
    · intro isZero
      rcases onward.next with ⟨_, _, agrees⟩ | ⟨_, isCache, _⟩
      · exact (agrees 0 isZero).symm
      · exact isCache
    · intro pos depth cached
      rw [onward.depth] at cached
      rw [onward.map]
      by_cases mem : pos ∈ instr.flow.targets
      · cases (noted_of_mem mem).symm.trans cached
      · exact steady.recorded ((noted_of_not_mem mem).symm.trans cached)
  · refine ⟨?_, fun _ => back.cache, ?_⟩
    · intro pos post
      rw [back.depth]
      rcases (back.pc ▸ post).lt_or_eq with post | equal
      · by_cases pre : pos ≤ scan.pc
        · exact .inl (erased_between post pre)
        · rw [erased_outside back.behind (.inr (by omega))]
          exact steady.ahead pos (by omega)
      · exact .inr (equal ▸ erased_dest dest)
    · intro pos depth cached
      rw [back.depth, erased] at cached
      rw [back.map]
      split_ifs at cached
      · cases cached
      · exact steady.recorded cached

theorem Round.below (inside : scan.pc < prep.method.codeLen)
    (targets : ∀ dest ∈ instr.flow.targets, dest < prep.method.codeLen) :
    prep.Below (prep.rank next) (prep.rank scan) := by
  rcases round with onward | ⟨dest, back⟩
  · have le : (prep.rank next).1 ≤ (prep.rank scan).1 :=
      Pi.toLex_monotone fun pos => onward.depth ▸ steady.noted_phase instr.flow.targets pos
    have closer : prep.method.codeLen - next.pc < prep.method.codeLen - scan.pc := by
      rw [onward.pc]
      omega
    rcases le.lt_or_eq with less | equal
    · exact Prod.lex_def.mpr (.inl less)
    · exact Prod.lex_def.mpr (.inr ⟨equal, closer⟩)
  · refine Prod.lex_def.mpr (.inl ⟨⟨dest, targets dest back.target⟩, ?_, ?_⟩)
    · intro pos pre
      change phase (next.cacheDepth pos) = phase (scan.cacheDepth pos)
      rw [back.depth, erased_outside back.behind (.inl pre)]
    · change phase (next.cacheDepth dest) < phase (scan.cacheDepth dest)
      obtain ⟨depth, cached⟩ := back.cached
      rw [back.depth, erased_dest]
      obtain rfl | here := eq_or_ne dest scan.pc
      · rcases steady.ahead scan.pc le_rfl with unknown | isZero
        · rw [unknown]
          exact Nat.two_pos
        · rw [show scan.record.cacheDepth scan.pc = some scan.cache from
            update_self _ _ _, steady.resolved isZero] at cached
          cases cached
      · rw [record_of_ne here] at cached
        rw [cached]
        exact Nat.one_pos

end

section
variable (scanned : prep.Scanned scan earlier) (inside : scan.pc < prep.method.codeLen)
  (fetched : prep.fetchAt scan.pc = some instr)
include scanned inside fetched

theorem Scanned.joins (mem : dest ∈ instr.flow.targets) : prep.Join dest :=
  .inr ⟨scan.pc, instr, scanned.path.start, inside, fetched, mem⟩

omit fetched in
theorem Scanned.start_of_cached (cached : scan.record.cacheDepth pos = some (depth + 1)) :
    prep.Start pos := by
  obtain ⟨index, isIndex⟩ := scanned.toSteady.recorded cached
  exact (scanned.record_unset inside pos index isIndex).1

variable (valid : prep.Translatable)
include valid

omit inside fetched in
theorem Scanned.visited (start : prep.Start pos) (behind : pos ≤ scan.pc) :
    ∃ visit ∈ visitOf scan :: earlier, visit.pc = pos := by
  rcases behind.lt_or_eq with pre | equal
  · obtain ⟨visit, mem, isPc⟩ := scanned.path.covers valid start pre
    exact ⟨visit, mem_cons_of_mem _ mem, isPc⟩
  · exact ⟨_, mem_cons_self, equal.symm⟩

theorem Scanned.targets_zero
    (onward : ∀ dest, instr.flow.jump = some dest → ¬ 0 < (scan.record.cacheDepth dest).getD 0) :
    ∀ dest ∈ instr.flow.targets, (scan.record.cacheDepth dest).getD 0 = 0 := by
  intro dest isTarget
  cases isJump : instr.flow.jump with
  | some =>
    rw [Flow.targets_of_jump isJump, mem_singleton] at isTarget
    subst isTarget
    exact Nat.eq_zero_of_not_pos (onward dest isJump)
  | none =>
    rcases cached : scan.record.cacheDepth dest with _ | _ | depth
    · rfl
    · rfl
    · have behind := scanned.behind cached
      obtain ⟨visit, mem, rfl⟩ :=
        scanned.visited valid (scanned.start_of_cached inside cached) behind
      obtain ⟨recorded, _⟩ := scanned.recorded valid visit mem
      obtain ⟨deepest, count, line, deep⟩ := scanned.deep mem
      have flat := valid.switches scanned.path.start inside fetched isJump visit.pc isTarget behind
        deepest count line
      have same := some.inj (recorded.symm.trans cached)
      omega

variable {next : Scan}

theorem Scanned.onward (onward : prep.Onward scan instr next) (later : scan.pc < next.pc)
    (kept : Steady next) : prep.Scanned next (visitOf scan :: earlier) := by
  have zero := scanned.targets_zero inside fetched valid onward.zero
  have joined {pos} (post : next.pc ≤ pos) (isZero : next.cacheDepth pos = some 0) :=
    scanned.noted_joined (fun dest => scanned.joins inside fetched) (later.trans_le post)
      (onward.depth ▸ isZero)
  have follows : prep.Follows (visitOf scan) (visitOf next) := by
    rw [visitOf, visitOf, onward.pc]
    rcases onward.next with ⟨isCount, isCache, _⟩ | ⟨isCount, isCache, depth, isKnown, differs⟩
    · rw [isCount, isCache]
      exact .next inside fetched
    · rw [isCount, isCache]
      rcases kept.ahead next.pc le_rfl with unknown | isZero
      · cases unknown.symm.trans isKnown
      · cases isZero.symm.trans isKnown
        exact .nop inside fetched differs.symm (onward.pc ▸ joined le_rfl isZero)
  have path := Path.step scanned.path follows
  have passed : ∀ {pos}, prep.Start pos → pos < next.pc → pos ≤ scan.pc := by
    intro pos start pre
    obtain ⟨visit, mem, rfl⟩ := path.covers valid start pre
    rcases mem_cons.mp mem with rfl | mem
    · exact le_rfl
    · exact (scanned.path.lt valid mem).1.le
  refine ⟨kept, path, ?_, fun pos => joined, onward.map ▸ scanned.record_unset inside, ?_⟩
  · intro visit mem
    obtain ⟨depth, index⟩ := scanned.recorded valid visit mem
    rw [onward.depth, onward.map]
    exact ⟨noted_of_record zero depth, index⟩
  · intro pos start known
    rw [Noted, onward.depth]
    by_cases mem : pos ∈ instr.flow.targets
    · exact .inl (noted_of_mem mem)
    have known : prep.Known scan.pc pos := by
      refine known.imp id ?_
      rintro ⟨pc, other, pcStart, pre, isOther, isTarget⟩
      refine ⟨pc, other, pcStart, (passed pcStart pre).lt_of_ne ?_, isOther, isTarget⟩
      rintro rfl
      cases fetched.symm.trans isOther
      exact mem isTarget
    rcases scanned.known pos start known with isZero | ⟨unknown, dest, pending⟩
    · exact .inl (scanned.noted_zero zero isZero)
    · rcases pending.ahead.lt_or_eq with ahead | rfl
      · refine .inr ⟨?_, dest, pending.move (pending.behind.trans later.le)
          (Nat.le_of_not_lt fun pre => ?_) ?_ fun target before => ?_⟩
        · rw [noted_of_not_mem mem, record_of_ne ahead.ne', unknown]
        · exact absurd (passed start pre) (Nat.not_le.mpr ahead)
        · rw [onward.depth]
          exact scanned.noted_zero zero pending.flat
        · rw [onward.depth]
          by_cases isTarget : target ∈ instr.flow.targets
          · exact .inl (noted_of_mem isTarget)
          · exact .inr ((noted_of_not_mem isTarget).trans
              (record_of_ne (before.trans_le pending.behind).ne))
      · rw [noted_of_not_mem mem]
        exact .inl ((scanned.recorded valid _ mem_cons_self).1.trans
          (congrArg some (scanned.flat mem_cons_self known)))

theorem Scanned.back (back : Back scan instr dest next) (kept : Steady next) :
    prep.Scanned next (settled dest earlier) := by
  have start := scanned.path.start
  have behind := back.behind
  have join := scanned.joins inside fetched back.target
  obtain ⟨deep, cached⟩ := back.cached
  obtain ⟨visit, mem, isDest⟩ :=
    scanned.visited valid (scanned.start_of_cached inside cached) behind
  obtain ⟨isDepth, isIndex⟩ := scanned.recorded valid visit mem
  have path := scanned.path.back valid mem
  obtain ⟨depth, count, line, deeper⟩ := scanned.deep mem
  rw [isDest] at isDepth isIndex path line
  have nonempty : 0 < visit.depth := by
    have same := some.inj (isDepth.symm.trans cached)
    omega
  have subset := settled_subset dest earlier
  obtain ⟨fits, clean⟩ := valid.loops start inside fetched back.jump behind depth count line
    (nonempty.trans_le deeper)
  have isCount : visit.index = next.insCount - 1 := by
    obtain ⟨own, number, isNumber, _, _, positive, short⟩ := path.numbered
    have fits := fits number ⟨own, isDest ▸ isNumber⟩
    rw [← toShort_of_lt positive (by omega)]
    exact some.inj (isIndex.symm.trans back.count)
  refine ⟨kept, ?_, ?_, ?_, back.map ▸ scanned.record_unset inside, ?_⟩
  · obtain ⟨pre, others, previous, isRest, pathBefore, insideBefore, fetchedBefore, isVisit⟩ :=
      path.cached nonempty
    rw [isVisit] at isDest nonempty isCount
    dsimp only at isDest nonempty isCount
    have follows : prep.Follows pre ⟨pre.pc + previous.length, 0, pre.index + 2⟩ :=
      .nop insideBefore fetchedBefore nonempty.ne' (isDest ▸ join)
    rw [back.pc, back.cache, isRest, ← isDest, show next.insCount = pre.index + 2 by omega]
    exact .step pathBefore follows
  · intro other mem
    have pre : other.pc < dest := isDest ▸ (path.lt valid mem).1
    obtain ⟨depth, index⟩ := scanned.recorded valid other (mem_cons_of_mem _ (subset mem))
    rw [back.depth, back.map, erased_outside behind (.inl pre), ← record_of_ne (by omega)]
    exact ⟨depth, index⟩
  · intro pos post isZero
    rw [back.depth] at isZero
    rcases (back.pc ▸ post).lt_or_eq with post | equal
    · by_cases pre : pos ≤ scan.pc
      · cases (erased_between post pre).symm.trans isZero
      · rw [erased_outside behind (.inr (by omega))] at isZero
        exact scanned.joined pos (by omega) isZero
    · exact equal ▸ join
  · intro pos posStart known
    rw [back.pc] at known
    have noted := scanned.known pos posStart (known.mono behind)
    rw [Noted, back.depth]
    rcases Nat.lt_trichotomy pos dest with pre | equal | post
    · rw [erased_outside behind (.inl pre)]
      refine noted.imp id ?_
      rintro ⟨_, _, pending⟩
      exact absurd (behind.trans pending.ahead) (Nat.not_le.mpr pre)
    · rw [equal]
      exact .inl (erased_dest dest)
    · by_cases pre : pos ≤ scan.pc
      · refine .inr ⟨erased_between post pre, dest, back.pc.ge, back.pc ▸ post.le, ?_,
          clean pos posStart post pre known, ?_⟩
        · rw [back.depth]
          exact erased_dest dest
        · intro target before reaches depth isDepth
          rw [back.depth, erased_outside behind (.inl before)] at isDepth
          exact scanned.not_cached (Known.mono (.inr reaches) pre) isDepth
      · have ahead := Nat.lt_of_not_le pre
        rw [erased_outside behind (.inr ahead)]
        refine noted.imp id ?_
        rintro ⟨unknown, head, pending⟩
        -- The jump has not gone back behind the head of the loop that is being scanned again.
        have inner : head ≤ dest := by
          by_contra outer
          have outer := Nat.lt_of_not_le outer
          rw [record_of_ne (outer.trans_le pending.behind).ne] at cached
          exact pending.settled dest outer ⟨scan.pc, instr, start, ahead, fetched, back.target⟩
            deep cached
        refine ⟨unknown, head, pending.move (back.pc ▸ inner) (back.pc ▸ post.le) ?_
          fun target before => .inr ?_⟩
        · rw [back.depth]
          rcases inner.lt_or_eq with before | rfl
          · rw [erased_outside behind (.inl before)]
            exact pending.flat
          · exact erased_dest head
        · rw [back.depth, erased_outside behind (.inl (before.trans_le inner))]

omit fetched in
theorem Scanned.step : ∃ next, prep.step .first scan = some next ∧
      prep.Scanned next (settled next.pc (visitOf scan :: earlier)) ∧
      prep.Below (prep.rank next) (prep.rank scan) := by
  have start := scanned.path.start
  have steady := scanned.toSteady
  obtain ⟨instr, fetched, positive, _⟩ := valid.fetches start inside
  obtain ⟨next, ran, round⟩ := steady.round ((valid.stable start inside _).trans fetched)
  have kept := round.keeps steady positive
  refine ⟨next, ran, ?_, round.below steady positive inside fun dest isTarget =>
    valid.joins (scanned.joins inside fetched isTarget)⟩
  rw [settled]
  rcases round with onward | ⟨dest, back⟩
  · have later : scan.pc < next.pc := onward.pc ▸ Nat.lt_add_of_pos_right positive
    have whole : settled (visitOf scan).pc earlier = earlier := scanned.path.settled valid
    rw [if_pos (show (visitOf scan).pc < next.pc from later), whole]
    exact scanned.onward inside fetched valid onward later kept
  · rw [back.pc, if_neg (show ¬ (visitOf scan).pc < dest from Nat.not_lt.mpr back.behind)]
    exact scanned.back inside fetched valid back kept

end

end

theorem steady_initial (prep : Translator) : Steady prep.initial := by
  refine ⟨fun pos _ => ?_, fun _ => rfl, fun cached => ?_⟩
  · exact (ite_eq_or_eq (pos ∈ prep.method.handlers) (some 0) none).symm
  · dsimp only [initial] at cached
    split_ifs at cached
    cases cached

theorem scanned_initial (prep : Translator) : prep.Scanned prep.initial [] := by
  refine ⟨steady_initial prep, .first, by simp, fun pos _ isZero => .inl ?_, by simp [initial], ?_⟩
  · by_contra other
    cases (if_neg other).symm.trans isZero
  · rintro pos - (mem | ⟨_, _, _, pre, _⟩)
    · exact .inl (if_pos mem)
    · cases pre

theorem first_pass (valid : prep.Translatable) :
    ∃ fuel scan log, whileLog prep.unfinished (prep.step .first) fuel prep.initial [] =
        some (scan, log) ∧
      prep.Scanned scan (settled scan.pc (log.map visitOf)) ∧
      scan.pc = prep.method.codeLen := by
  obtain ⟨fuel, scan, log, ends, scanned, finished⟩ :=
    whileLog_total prep.below_wellFounded
      (fun scan log => prep.Scanned scan (settled scan.pc (log.map visitOf))) prep.rank
      (fun scan log scanned unfinished => by
        have step := scanned.step (of_decide_eq_true unfinished) valid
        simp only [show scan.pc = (visitOf scan).pc from rfl, settled_cons] at step
        exact step)
      (scanned_initial prep)
  have outside : ¬ scan.pc < prep.method.codeLen := of_decide_eq_false finished
  exact ⟨fuel, scan, log, ends, scanned,
    Nat.le_antisymm (scanned.path.inside valid) (Nat.le_of_not_lt outside)⟩

end JamVM.Interp.Translator
