import JamVM.Interp.PrepareFirst

/-! # The second pass

The second pass goes along the path that the first one has found: depths and numbers come
out the same, a `nop` is stored where one was counted, and no branch goes back, because
every destination has depth zero.
-/

namespace JamVM.Interp.Translator

open Scan List Function

variable (prep : Translator)

/-- The instruction of a visit is stored at its number, and the next visit comes right
after it or after a `nop`. -/
def Emitted (code : Int → Option Prepared) (map : Nat → Option Int) (visit next : Visit) :
    Prop :=
  ∃ instr, prep.fetchAt visit.pc = some instr ∧ next.pc = visit.pc + instr.length ∧
    code visit.index = some ⟨visit.depth, instr.opcode, instr.place map visit.depth⟩ ∧
    (next.index = visit.index + 1 ∧ next.depth = prep.leaves instr visit.depth ∨
      next.index = visit.index + 2 ∧ next.depth = 0 ∧
        code (visit.index + 1) = some ⟨prep.leaves instr visit.depth, .nop,
          instr.place map visit.depth⟩)

def Written (code : Int → Option Prepared) (map : Nat → Option Int) : Visit → List Visit → Prop
  | _, [] => True
  | next, visit :: earlier => prep.Emitted code map visit next ∧ Written code map visit earlier

variable {prep} {code other : Int → Option Prepared} {map : Nat → Option Int}
  {visit next : Visit} {earlier : List Visit}

theorem Emitted.frame (emitted : prep.Emitted code map visit next)
    (same : ∀ index < next.index, other index = code index) :
    prep.Emitted other map visit next := by
  obtain ⟨instr, fetched, isNext, stored, rest⟩ := emitted
  refine ⟨instr, fetched, isNext, ?_, ?_⟩
  · rw [same visit.index (by omega), stored]
  · rcases rest with onward | ⟨isIndex, isDepth, nop⟩
    · exact .inl onward
    · exact .inr ⟨isIndex, isDepth, by rw [same _ (by omega), nop]⟩

theorem Emitted.lt (emitted : prep.Emitted code map visit next) : visit.index < next.index := by
  obtain ⟨_, _, _, _, rest⟩ := emitted
  omega

section
variable (written : prep.Written code map visit earlier)
include written

theorem Written.frame (same : ∀ index < visit.index, other index = code index) :
    prep.Written other map visit earlier := by
  induction earlier generalizing visit with
  | nil => trivial
  | cons pre rest ih =>
    obtain ⟨emitted, written⟩ := written
    exact ⟨emitted.frame same,
      ih written fun index smaller => same index (smaller.trans emitted.lt)⟩

theorem Written.emitted (mem : pre ∈ earlier) :
    ∃ next ∈ visit :: earlier, prep.Emitted code map pre next := by
  induction earlier generalizing visit with
  | nil => cases mem
  | cons head rest ih =>
    rcases mem_cons.mp mem with rfl | mem
    · exact ⟨visit, mem_cons_self, written.1⟩
    · obtain ⟨next, isNext, emitted⟩ := ih written.2 mem
      exact ⟨next, mem_cons_of_mem _ isNext, emitted⟩

theorem Written.complete (path : prep.Path visit earlier) (positive : 0 ≤ index)
    (smaller : index < visit.index) :
    ∃ pre ∈ earlier, ∃ next, prep.Emitted code map pre next ∧
      (index = pre.index ∨ index = pre.index + 1 ∧ next.index = pre.index + 2) := by
  induction path with
  | first => exact absurd smaller (by dsimp only; omega)
  | @step head _ rest path _ ih =>
    obtain ⟨emitted, written⟩ := written
    by_cases below : index < head.index
    · obtain ⟨pre, mem, res⟩ := ih written below
      exact ⟨pre, mem_cons_of_mem _ mem, res⟩
    · refine ⟨head, mem_cons_self, _, emitted, ?_⟩
      obtain ⟨_, _, _, _, isNext | ⟨isNext, _⟩⟩ := emitted <;> omega

end

theorem Path.of_suffix
    (path : prep.Path final visits) (suffix : visit :: earlier <:+ final :: visits) :
    prep.Path visit earlier := by
  induction path with
  | first =>
    obtain ⟨pre, equal⟩ := suffix
    cases pre with
    | nil =>
      cases equal
      exact .first
    | cons => simp at equal
  | step path follows ih =>
    rcases suffix_cons_iff.mp suffix with equal | suffix
    · cases equal
      exact .step path follows
    · exact ih suffix

variable {scan : Scan}

theorem emit_second_quiet (quiet : scan.conflict = false) (allocated : Nat)
    (positive : 0 ≤ scan.insCount) (inside : scan.insCount < allocated) (prepared : Prepared) :
    scan.emit (.second allocated) prepared = some { scan with
        newCode := update scan.newCode scan.insCount (some prepared)
        insCount := scan.insCount + 1 } := by
  simp [emit, store, quiet, positive, inside]

theorem emit_second_nop (conflict : scan.conflict = true) (allocated : Nat)
    (positive : 0 ≤ scan.insCount) (inside : scan.insCount + 1 < allocated)
    (prepared : Prepared) :
    scan.emit (.second allocated) prepared = some { scan with
        newCode := update (update scan.newCode scan.insCount (some prepared))
          (scan.insCount + 1) (some ⟨scan.cache, .nop, prepared.operand⟩)
        insCount := scan.insCount + 1 + 1
        cache := 0 } := by
  have first : scan.insCount < allocated := by omega
  have second : 0 ≤ scan.insCount + 1 := by omega
  simp [emit, store, conflict, positive, first, second, inside]

theorem Path.first_suffix (path : prep.Path visit earlier) : [⟨0, 0, 0⟩] <:+ visit :: earlier := by
  induction path with
  | first => exact suffix_rfl
  | step _ _ ih => exact ih.trans (suffix_cons _ _)

structure Mapped (prep : Translator) (depths : Nat → Option Nat) (map : Nat → Option Int)
    (final : Visit) (visits : List Visit) : Prop where
  path : prep.Path final visits
  isEnd : final.pc = prep.method.codeLen
  stored : ∀ visit ∈ visits, depths visit.pc = some visit.depth ∧
    map visit.pc = some (toShort visit.index)
  unknown : depths prep.method.codeLen = none
  unset : ∀ pos index, map pos = some index → prep.Start pos ∧ pos < prep.method.codeLen
  flat : ∀ pos, prep.Join pos → (depths pos).getD 0 = 0

theorem Scanned.mapped (valid : prep.Translatable) (scanned : prep.Scanned scan visits)
    (isEnd : scan.pc = prep.method.codeLen) :
    prep.Mapped scan.cacheDepth scan.map ⟨scan.pc, scan.cache, scan.insCount⟩ visits := by
  refine ⟨scanned.path, isEnd, scanned.stored, ?_, scanned.unset, ?_⟩
  · rcases scanned.ahead prep.method.codeLen isEnd.le with unknown | isZero
    · exact unknown
    · exact absurd (valid.joins (scanned.joined _ isEnd.le isZero)) (Nat.lt_irrefl _)
  · intro pos join
    rcases cached : scan.cacheDepth pos with _ | _ | depth
    · rfl
    · rfl
    · exact absurd cached (scanned.not_cached (isEnd ▸ join))

structure Storing (prep : Translator) (depths : Nat → Option Nat)
    (map : Nat → Option Int) (whole : List Visit) (scan : Scan) (earlier : List Visit) :
    Prop where
  suffix : (⟨scan.pc, scan.cache, scan.insCount⟩ : Visit) :: earlier <:+ whole
  sameDepth : scan.cacheDepth = depths
  sameMap : scan.map = map
  written : prep.Written scan.newCode map ⟨scan.pc, scan.cache, scan.insCount⟩ earlier

section
variable (valid : prep.Translatable) {depths : Nat → Option Nat} {final : Visit}
  {visits : List Visit} (mapped : prep.Mapped depths map final visits) {scan : Scan}
include valid mapped

variable {visit : Visit} {earlier : List Visit}

theorem Mapped.follows (suffix : next :: visit :: earlier <:+ final :: visits) :
    ∃ instr, prep.fetchAt visit.pc = some instr ∧ next.pc = visit.pc + instr.length ∧
      ((next.index = visit.index + 1 ∧ next.depth = prep.leaves instr visit.depth ∧
          ∀ depth, depths next.pc = some depth → depth = next.depth) ∨
        (next.index = visit.index + 2 ∧ next.depth = 0 ∧ depths next.pc = some 0 ∧
          prep.leaves instr visit.depth ≠ 0)) := by
  have path := mapped.path.of_suffix suffix
  have known : next.pc < prep.method.codeLen → depths next.pc = some next.depth := by
    intro inside
    rcases mem_cons.mp (suffix.subset mem_cons_self) with equal | mem
    · rw [equal, mapped.isEnd] at inside
      exact absurd inside (Nat.lt_irrefl _)
    · exact (mapped.stored next mem).1
  have bound := path.inside valid
  cases path with
  | step pre follows =>
    cases follows with
    | @next instr inside fetched =>
      refine ⟨instr, fetched, rfl, .inl ⟨rfl, rfl, fun depth isDepth => ?_⟩⟩
      rcases bound.lt_or_eq with inside | isEnd
      · exact Option.some.inj (isDepth.symm.trans (known inside))
      · rw [isEnd, mapped.unknown] at isDepth
        cases isDepth
    | @nop instr inside fetched cached join =>
      exact ⟨instr, fetched, rfl, .inr ⟨rfl, rfl, known (valid.joins join), cached⟩⟩

omit valid in
theorem Mapped.extend (suffix : visit :: earlier <:+ final :: visits)
    (inside : visit.pc < prep.method.codeLen) :
    ∃ next, next :: visit :: earlier <:+ final :: visits := by
  obtain ⟨front, whole⟩ := suffix
  rcases eq_nil_or_concat front with empty | ⟨init, next, isFront⟩
  · subst empty
    rw [nil_append, List.cons.injEq] at whole
    rw [whole.1, mapped.isEnd] at inside
    exact absurd inside (Nat.lt_irrefl _)
  · exact ⟨next, init, by rw [← whole, isFront, concat_eq_append, append_assoc]; rfl⟩

theorem Mapped.index_lt (suffix : next :: visit :: earlier <:+ final :: visits) :
    0 ≤ visit.index ∧ visit.index < next.index ∧ next.index ≤ final.index := by
  have path := mapped.path.of_suffix suffix
  obtain ⟨_, _, _, _, _, positive, _⟩ :=
    (mapped.path.of_suffix ((suffix_cons _ _).trans suffix)).numbered
  refine ⟨positive, (path.lt valid mem_cons_self).2, ?_⟩
  rcases mem_cons.mp (suffix.subset mem_cons_self) with equal | mem
  · rw [equal]
  · exact (mapped.path.lt valid mem).2.le

omit valid in
theorem Storing.advance (storing : prep.Storing depths map (final :: visits) scan earlier)
    (inside : scan.pc < prep.method.codeLen) (fetched : prep.fetchAt scan.pc = some instr) :
    prep.advance instr scan = some (prep.forward instr scan) := by
  have start := (mapped.path.of_suffix storing.suffix).start
  rw [Translator.advance]
  cases isJump : instr.flow.jump with
  | none => rfl
  | some dest =>
    have isTarget : dest ∈ instr.flow.targets := Flow.targets_of_jump isJump ▸ mem_singleton.mpr rfl
    have zero := mapped.flat dest (.inr ⟨scan.pc, instr, start, inside, fetched, isTarget⟩)
    exact if_neg (by simp [storing.sameDepth, zero])

omit valid mapped in
theorem Storing.onward (storing : prep.Storing depths map whole scan earlier)
    (suffix : (⟨emitted.pc, emitted.cache, emitted.insCount⟩ : Visit) ::
      ⟨scan.pc, scan.cache, scan.insCount⟩ :: earlier <:+ whole)
    (sameDepth : emitted.cacheDepth = scan.cacheDepth) (sameMap : emitted.map = scan.map)
    (stored : prep.Emitted emitted.newCode map ⟨scan.pc, scan.cache, scan.insCount⟩
      ⟨emitted.pc, emitted.cache, emitted.insCount⟩)
    (frame : ∀ index < scan.insCount, emitted.newCode index = scan.newCode index) :
    prep.Storing depths map whole emitted (⟨scan.pc, scan.cache, scan.insCount⟩ :: earlier) :=
  ⟨suffix, sameDepth.trans storing.sameDepth, sameMap.trans storing.sameMap, stored,
    storing.written.frame frame⟩

theorem Storing.step (storing : prep.Storing depths map (final :: visits) scan earlier)
    (inside : scan.pc < prep.method.codeLen) {allocated : Nat}
    (enough : final.index < allocated) :
    ∃ next, prep.step (.second allocated) scan = some next ∧
      prep.Storing depths map (final :: visits) next (visitOf scan :: earlier) ∧
      prep.method.codeLen - next.pc < prep.method.codeLen - scan.pc := by
  obtain ⟨⟨pc, depth, index⟩, suffix⟩ := mapped.extend storing.suffix inside
  obtain ⟨instr, fetched, isNext, rest⟩ := mapped.follows valid suffix
  obtain ⟨positive, smaller, bound⟩ := mapped.index_lt valid suffix
  have later := ((mapped.path.of_suffix suffix).lt valid mem_cons_self).1
  dsimp only at fetched isNext rest positive smaller bound later
  have closer : prep.method.codeLen - pc < prep.method.codeLen - scan.pc := by omega
  let prepared : Prepared := ⟨scan.cache, instr.opcode, instr.place scan.map scan.cache⟩
  have steps : ∀ {emitted : Scan},
      (prep.forward instr scan).emit (.second allocated) prepared = some emitted →
      prep.step (.second allocated) scan = some { emitted with round := scan.round + 1 } := by
    intro emitted emits
    have start := (mapped.path.of_suffix storing.suffix).start
    have fetchedNow : prep.method.fetch (prep.resolveField scan.round) scan.pc = some instr :=
      (valid.stable start inside _).trans fetched
    have moves := storing.advance mapped inside fetched
    change (prep.forward instr scan).emit (.second allocated)
      ⟨scan.cache, instr.opcode, instr.place scan.map scan.cache⟩ = some emitted at emits
    simp [Translator.step, fetchedNow, moves, emits]
  rcases rest with ⟨isIndex, isDepth, agrees⟩ | ⟨isIndex, isDepth, known, cached⟩
  · subst isNext isIndex isDepth
    have quiet : (prep.forward instr scan).conflict = false := by
      rw [Bool.eq_false_iff, ne_eq, conflict_iff]
      rintro ⟨depth, isDepth, differs⟩
      exact differs (agrees depth (storing.sameDepth ▸ isDepth))
    have emits := emit_second_quiet quiet allocated positive
      (by change scan.insCount < _; omega) prepared
    refine ⟨_, steps emits, storing.onward suffix rfl rfl ?_ ?_, closer⟩
    · refine ⟨instr, fetched, rfl, ?_, .inl ⟨rfl, rfl⟩⟩
      rw [← storing.sameMap]
      exact update_self _ _ _
    · exact fun index below => update_of_ne below.ne _ _
  · subst isNext isIndex isDepth
    have conflict : (prep.forward instr scan).conflict = true :=
      (conflict_iff _).mpr ⟨0, storing.sameDepth ▸ known, Ne.symm cached⟩
    have emits := emit_second_nop conflict allocated positive
      (by change scan.insCount + 1 < _; omega) prepared
    have isIndex : scan.insCount + 1 + 1 = scan.insCount + 2 := by omega
    refine ⟨_, steps emits, storing.onward ?_ rfl rfl ?_ ?_, closer⟩
    · change (⟨_, 0, scan.insCount + 1 + 1⟩ : Visit) :: _ <:+ _
      rw [isIndex]
      exact suffix
    · refine ⟨instr, fetched, rfl, ?_, .inr ⟨isIndex, rfl, ?_⟩⟩
      · rw [← storing.sameMap]
        exact (update_of_ne (by change scan.insCount ≠ scan.insCount + 1; omega) _ _).trans
          (update_self _ _ _)
      · rw [← storing.sameMap]
        exact update_self _ _ _
    · intro index below
      exact (update_of_ne (by change index ≠ scan.insCount + 1; omega) _ _).trans
        (update_of_ne below.ne _ _)

theorem second_pass {allocated : Nat} (enough : final.index < allocated)
    (sameDepth : scan.cacheDepth = depths) (sameMap : scan.map = map) :
    ∃ fuel last log, whileLog prep.unfinished (prep.step (.second allocated)) fuel
        { scan with pc := 0, cache := 0, insCount := 0 } [] = some (last, log) ∧
      log.map visitOf = visits ∧ visitOf last = final ∧ last.map = map ∧
      prep.Written last.newCode map final visits := by
  have initially : prep.Storing depths map (final :: visits)
      { scan with pc := 0, cache := 0, insCount := 0 } [] :=
    ⟨mapped.path.first_suffix, sameDepth, sameMap, trivial⟩
  obtain ⟨fuel, last, log, ends, storing, finished⟩ :=
    whileLog_total Nat.lt_wfRel.wf
      (fun scan log => prep.Storing depths map (final :: visits) scan (log.map visitOf))
      (fun scan => prep.method.codeLen - scan.pc)
      (fun scan log storing unfinished =>
        storing.step valid mapped (of_decide_eq_true unfinished) enough)
      initially
  have outside : ¬ last.pc < prep.method.codeLen := of_decide_eq_false finished
  rcases suffix_cons_iff.mp storing.suffix with whole | proper
  · obtain ⟨isFinal, isVisits⟩ := List.cons.inj whole
    have written := storing.written
    rw [isFinal, isVisits] at written
    exact ⟨fuel, last, log, ends, isVisits, isFinal, storing.sameMap, written⟩
  · have pre := (mapped.path.lt valid (proper.subset mem_cons_self)).1
    rw [mapped.isEnd] at pre
    exact absurd pre outside

end

theorem prepare_written (valid : prep.Translatable) :
    ∃ fuel res depths final visits, (∀ more ≥ fuel, prep.prepare more = some res) ∧
      prep.Mapped depths res.map final visits ∧
      res.codeSize = final.index ∧
      prep.Written res.code res.map final visits ∧
      res.handlers = prep.method.handlers.map fun handler =>
        (res.map handler).map (· % 2 ^ 16) := by
  obtain ⟨rounds₁, scan, _, ends₁, scanned, isEnd⟩ := first_pass valid
  have mapped := scanned.mapped valid isEnd
  have enough : scan.insCount < ((scan.insCount + 1).toNat : Int) := by
    obtain ⟨_, _, _, _, _, positive, _⟩ := scanned.path.numbered
    omega
  obtain ⟨rounds₂, last, _, ends₂, _, isFinal, sameMap, written⟩ :=
    second_pass valid mapped enough rfl rfl
  refine ⟨max rounds₁ rounds₂, ⟨last.newCode, last.insCount, last.map,
    prep.method.handlers.map fun handler => (last.map handler).map (· % 2 ^ 16)⟩,
    scan.cacheDepth, _, _, ?_, sameMap ▸ mapped, congrArg Visit.index isFinal,
    sameMap ▸ written, rfl⟩
  intro more many
  have first := whileSome_mono ((Nat.le_max_left _ _).trans many) (whileSome_of_whileLog ends₁)
  have second := whileSome_mono ((Nat.le_max_right _ _).trans many) (whileSome_of_whileLog ends₂)
  simp [prepare, first, second]

end JamVM.Interp.Translator
