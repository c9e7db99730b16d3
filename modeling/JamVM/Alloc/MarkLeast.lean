import JamVM.Alloc.MarkClosure

/-! # Marking ends with the least closed assignment

Whatever the size of the mark stack, the loops of `scanHeapAndMark` end, and the marks they
leave are the least ones above those at the beginning that no edge can raise.
-/

namespace JamVM.Alloc

section
variable (cfg : Config) (heap : Heap cfg.platform) (soft : Bool)

/-! ## Loops without a bound of their own -/

namespace Marking

def markStackWithin (fuel : Nat) (marking : Marking) : Option Marking :=
  whileSome (fun marking => !marking.stack.isEmpty)
    (fun marking => some (marking.popAndMark cfg heap soft)) fuel marking

def scanBlockWithin (fuel : Nat) (marking : Marking) (addr : Nat) (block : Block) :
    Option Marking :=
  let marking := { marking with scanPtr := addr }
  let object := addr + cfg.platform.headerSize
  if block.object.isSome && marking.marks object != 0 then
    (marking.markChildren cfg heap soft object
      (marking.marks object)).markStackWithin cfg heap soft fuel
  else
    some marking

def scanBlocksWithin (fuel : Nat) (marking : Marking) : Nat → List Block → Option Marking
  | addr, [] => some { marking with scanPtr := addr }
  | addr, block :: rest => do
      let marking ← marking.scanBlockWithin cfg heap soft fuel addr block
      marking.scanBlocksWithin fuel (addr + block.size) rest

def scanAgainWithin (fuel : Nat) (marking : Marking) : Option Marking :=
  { marking with overflow := 0 }.scanBlocksWithin cfg heap soft fuel heap.base heap.blocks

def scanHeapAndMarkWithin (fuel : Nat) (marking : Marking) : Option Marking := do
  let marking ← marking.scanAgainWithin cfg heap soft fuel
  whileSome (fun marking => marking.overflow != 0)
    (scanAgainWithin cfg heap soft fuel) fuel marking

end Marking

def ClosedMarks (marks : Nat → Mark) : Prop :=
  ∀ source, marks source ≠ 0 → ∀ target strength,
    (some target, strength) ∈ children cfg heap soft source →
      strength.mark (marks source) ≤ marks target

end

variable {cfg : Config} {heap : Heap cfg.platform} {soft : Bool}

/-! ## Termination -/

namespace Marking

variable {marking : Marking} {fuel : Nat}

theorem markStackWithin_eq (below : StackBelow bound marking)
    (inside : marking.scanPtr ≤ heap.limit)
    (enough : marking.markStackRounds cfg heap ≤ fuel) :
    marking.markStackWithin cfg heap soft fuel = some (marking.markStack cfg heap soft) := by
  refine whileSome_of_whileLoop (fun _ => True) (fun _ _ => rfl) (fun _ _ _ => trivial) enough
    trivial ?_
  have empty : (marking.markStack cfg heap soft).stack = [] := markStack_stack below inside
  rw [markStack] at empty
  rw [empty]
  rfl

theorem scanBlockWithin_eq (empty : marking.stack = []) (inside : addr ≤ heap.limit)
    (enough : 6 * heap.limit + 1 ≤ fuel) :
    marking.scanBlockWithin cfg heap soft fuel addr block =
      some (marking.scanBlock cfg heap soft addr block) := by
  unfold scanBlockWithin scanBlock
  dsimp only
  split
  · rename_i scanned
    have marked := bne_iff_ne.mp (Bool.and_eq_true_iff.mp scanned).2
    have advance : Advance cfg heap soft hardMark
        { marking with scanPtr := addr } _ := markChildren_advance marked (Fin.le_last _)
    apply markStackWithin_eq (advance.pushed (by simp [empty])) (advance.scanPtr.trans_le inside)
    -- the pushes of one object raise marks, so they are at most three for each address
    have pushes := advance.rank inside
    have bounded := potential_le heap.limit marking.marks
    have noneBefore : marking.stack.length = 0 := by
      rw [empty]
      rfl
    rw [markStackRounds]
    dsimp only at pushes ⊢
    omega
  · rfl

theorem scanBlocksWithin_eq (suffix : Suffix heap addr blocks) (empty : marking.stack = [])
    (enough : 6 * heap.limit + 1 ≤ fuel) :
    marking.scanBlocksWithin cfg heap soft fuel addr blocks =
      some (marking.scanBlocks cfg heap soft addr blocks) := by
  induction blocks generalizing marking addr with
  | nil => rfl
  | cons block rest ih =>
    have inside : addr ≤ heap.limit := suffix.limit ▸ Nat.le_add_right _ _
    rw [scanBlocksWithin, scanBlocks, scanBlockWithin_eq empty inside enough]
    exact ih suffix.tail (scanBlock_scan empty inside).stack

theorem scanHeapAndMarkWithin_eq (empty : marking.stack = []) (enough : 6 * heap.limit + 1 ≤ fuel) :
    marking.scanHeapAndMarkWithin cfg heap soft fuel =
      some (marking.scanHeapAndMark cfg heap soft) := by
  have again (state : Marking) (isEmpty : state.stack = []) :
      state.scanAgainWithin cfg heap soft fuel = some (state.scanAgain cfg heap soft) := by
    rw [scanAgainWithin]
    apply scanBlocksWithin_eq (.start heap) _ enough
    exact isEmpty
  rw [scanHeapAndMarkWithin, again marking empty]
  refine whileSome_of_whileLoop (fun state => state.stack = []) again
    (fun state isEmpty _ => (scanAgain_scan isEmpty).stack) (by omega)
    (scanAgain_scan empty).stack ?_
  have overflow : (marking.scanHeapAndMark cfg heap soft).overflow = 0 :=
    scanHeapAndMark_overflow empty
  rw [scanHeapAndMark] at overflow
  rw [overflow]
  rfl

end Marking

/-! ## The least closed assignment -/

theorem Strength.mark_mono (strength : Strength) {mark : Mark} (le : mark ≤ larger) :
    strength.mark mark ≤ strength.mark larger := by
  cases strength with
  | strong => exact le
  | phantom => exact le_rfl

theorem Raised.le_closed (raised : Raised cfg heap soft bound marks next)
    (closed : ClosedMarks cfg heap soft above)
    (below : ∀ addr, marks addr ≤ above addr) :
    ∀ addr, next addr ≤ above addr := by
  refine raised.invariant (fun marks => ∀ addr, marks addr ≤ above addr) ?_ below
  rintro marks next ⟨source, target, strength, child, marked, -, -, rfl⟩ below addr
  rw [Function.update_apply]
  split
  · rename_i same
    have sourceMarked : above source ≠ 0 := by
      intro zero
      exact marked (Fin.le_zero_iff.mp (zero ▸ below source))
    rw [same]
    exact (strength.mark_mono (below source)).trans
      (closed source sourceMarked target strength child)
  · exact below addr

theorem scanHeapAndMark_closed {marking : Marking} (empty : marking.stack = []) :
    ClosedMarks cfg heap soft (marking.scanHeapAndMark cfg heap soft).marks := by
  intro source marked target strength child
  refine Marking.scanHeapAndMark_settled empty _ source (strength.mark_le marked) target strength
    child ?_
  cases strength with
  | strong => exact .inl rfl
  | phantom => exact .inr le_rfl

/-- Whatever the marks are when `scanHeapAndMark` starts with an empty mark stack: with any number
of rounds that is large enough all loops end, and the marks are then the least ones that are
closed and not below those at the start. -/
theorem scanHeapAndMark_least (cfg : Config) (heap : Heap cfg.platform)
    (soft : Bool) (marks : Nat → Mark) (overflow scanPtr : Nat) (roots : List Nat) :
    ∃ enough, ∀ fuel ≥ enough, ∃ final, Marking.scanHeapAndMarkWithin cfg heap soft fuel
        ⟨marks, [], overflow, scanPtr, roots⟩ = some final ∧
      (∀ addr, marks addr ≤ final.marks addr) ∧
      ClosedMarks cfg heap soft final.marks ∧
      ∀ above, (∀ addr, marks addr ≤ above addr) → ClosedMarks cfg heap soft above →
          ∀ addr, final.marks addr ≤ above addr := by
  have complete : Marking.Complete cfg heap soft
      ⟨marks, [], overflow, scanPtr, roots⟩ _ := Marking.scanHeapAndMark_complete rfl
  refine ⟨6 * heap.limit + 1, fun fuel enough => ⟨_,
    Marking.scanHeapAndMarkWithin_eq rfl enough, complete.raised.le, scanHeapAndMark_closed rfl,
    ?_⟩⟩
  intro above below closed
  exact complete.raised.le_closed closed below

end JamVM.Alloc
