import JamVM.Interp.ControlFlow

/-! # The two passes

The first pass ends for every verifiable method. When the method is regular, the second one
makes the rounds of the first that were not undone.
-/

namespace JamVM.Interp.Translator

open Nat

variable {prep : Translator}

section
variable (verifiable : prep.method.Verifiable)
include verifiable

theorem Steady.verified (steady : Steady scan) (pos : prep.method.Bytecode scan.pc)
    (inside : scan.pc < prep.method.codeLen) :
    ∃ next, prep.step .first scan = some next ∧
      (Steady next ∧ prep.method.Bytecode next.pc ∧ next.pc ≤ prep.method.codeLen) ∧
      prep.Below (prep.rank next) (prep.rank scan) := by
  -- Fields may be resolved in this round that were not resolved in the first one.
  obtain ⟨instr, fetched, positive, bound, post, targets⟩ :=
    @fetchAt_verified { prep with resolveField := fun _ => prep.resolveField scan.round } _
      verifiable pos inside
  obtain ⟨next, ran, round⟩ := steady.round fetched
  refine ⟨next, ran, ⟨round.keeps steady positive, ?_⟩,
    round.below steady positive inside fun dest isTarget => (targets dest isTarget).2⟩
  rcases round with onward | ⟨dest, back⟩
  · rw [onward.pc]
    exact ⟨post, bound⟩
  · obtain ⟨isBytecode, bound⟩ := targets dest back.target
    rw [back.pc]
    exact ⟨isBytecode, bound.le⟩

/-- However often it goes back, the first pass comes to the end of the code. -/
theorem first_pass_ends : ∃ fuel last, last.pc = prep.method.codeLen ∧ ∀ more ≥ fuel,
      whileSome prep.unfinished (prep.step .first) more prep.initial = some last := by
  obtain ⟨fuel, last, ends, ⟨_, _, bound⟩, finished⟩ :=
    whileSome_total prep.below_wellFounded
      (fun scan => Steady scan ∧ prep.method.Bytecode scan.pc ∧ scan.pc ≤ prep.method.codeLen)
      prep.rank
      (fun scan ⟨steady, pos, _⟩ unfinished =>
        steady.verified verifiable pos (of_decide_eq_true unfinished))
      ⟨steady_initial prep, .first, zero_le _⟩
  have outside : ¬ last.pc < prep.method.codeLen := of_decide_eq_false finished
  exact ⟨fuel, last, le_antisymm bound (Nat.le_of_not_lt outside),
    fun more enough => whileSome_mono enough ends⟩

end

/-- The `goto` of this method goes back to 1, which is entered with an operand in the cache. -/
theorem first_pass_ends_loop : ∃ prep : Translator, prep.useCache = true ∧
      prep.method.code = [43, 76, 43, 167, 255, 254] ∧
      ∃ fuel last, last.pc = prep.method.codeLen ∧ ∀ more ≥ fuel,
        whileSome prep.unfinished (prep.step .first) more prep.initial = some last := by
  let prep : Translator :=
    ⟨true, ⟨[43, 76, 43, 167, 255, 254], true, [], fun _ => false⟩, fun _ _ => none⟩
  have checked : prep.method.verify [0, 1, 2, 3] = true := by decide
  exact ⟨prep, rfl, rfl, first_pass_ends (Method.verifiable_of_verify checked)⟩

/-! ## The rounds of both passes -/

/-- The second pass makes the rounds of the first one that were not undone, with the same
depths and the same numbers, and so with the same `nop`s between them. Its positions grow:
no round goes back. A round that stored outside the new code would fail. -/
def PassesAgree (prep : Translator) : Prop :=
  ∃ fuel first log second again,
    (∀ more ≥ fuel, whileLog prep.unfinished (prep.step .first) more prep.initial [] =
      some (first, log)) ∧
    (∀ more ≥ fuel, whileLog prep.unfinished (prep.step (.second (first.insCount + 1).toNat)) more
        { first with pc := 0, cache := 0, insCount := 0 } [] = some (second, again)) ∧
    again.map visitOf = settled first.pc (log.map visitOf) ∧
    (visitOf second :: again.map visitOf).Pairwise (fun later earlier => earlier.pc < later.pc) ∧
    second.insCount = first.insCount

theorem Path.pairwise (valid : prep.Translatable) (path : prep.Path visit earlier) :
    (visit :: earlier).Pairwise (fun later earlier => earlier.pc < later.pc) := by
  induction path with
  | first => exact List.pairwise_singleton _ _
  | step path follows ih =>
    exact .cons (fun other mem => ((Path.step path follows).lt valid mem).1) ih

end JamVM.Interp.Translator
