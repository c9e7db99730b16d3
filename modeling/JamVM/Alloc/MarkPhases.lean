import JamVM.Alloc.MarkClosure

/-! # The phases of `doMark`

What each phase does to the marks: the roots, the finaliser queue and the JNI
weak references.
-/

namespace JamVM.Alloc

open List Heap Function Option

/-! ## Roots -/

def ThreadRoots.roots {platform : Platform} (heap : Heap platform) (thread : ThreadRoots) :
    List Nat :=
  thread.thread.toList ++ thread.exception.toList ++ thread.stack.filter heap.isObject ++
    thread.frames.flatMap fun frame => frame.1.toList ++ frame.2.filter heap.isObject

def Collector.roots {platform : Platform} (gc : Collector platform) : List Nat :=
  gc.oom.toList ++ gc.bootClasses ++ gc.primClasses.reduceOption ++ gc.globalRefs.reduceOption ++
      gc.threads.flatMap (ThreadRoots.roots gc.heap)

structure Rooted (roots : List Nat) (pre post : Marking) : Prop where
  marks : ∀ addr, post.marks addr =
    if addr ∈ roots then hardMark else pre.marks addr
  stack : post.stack = pre.stack

namespace Rooted

theorem refl (marking : Marking) : Rooted [] marking marking := ⟨fun _ => rfl, rfl⟩

theorem trans (pre : Rooted first start middle) (post : Rooted second middle final) :
    Rooted (first ++ second) start final := by
  refine ⟨fun addr => ?_, post.stack.trans pre.stack⟩
  rw [post.marks, pre.marks]
  by_cases early : addr ∈ first <;> by_cases late : addr ∈ second <;> simp [early, late]

theorem mark (marking : Marking) (object : Nat) :
    Rooted [object] marking (marking.mark object hardMark) := by
  have full : ∀ mark : Mark, mark ||| hardMark = hardMark := by decide
  refine ⟨fun addr => ?_, rfl⟩
  simp only [Marking.mark, full, update_apply, mem_singleton]

theorem addConservativeRoot (object : Nat) (rooted : Rooted roots pre post) :
    Rooted roots pre (post.addConservativeRoot object) :=
  ⟨rooted.marks, rooted.stack⟩

theorem markRoot (marking : Marking) (object : Reference) :
    Rooted object.toList marking (marking.markRoot object) := by
  cases object with
  | none => exact .refl marking
  | some object => exact .mark marking object

theorem markConservativeRoot (marking : Marking) (object : Reference) :
    Rooted object.toList marking (marking.markConservativeRoot object) := by
  cases object with
  | none => exact .refl marking
  | some object => exact (Rooted.mark marking object).addConservativeRoot object

theorem foldl {Item : Type u} {action : Marking → Item → Marking} {roots : Item → List Nat}
    (rooted : ∀ marking item, Rooted (roots item) marking (action marking item))
    (items : List Item) (marking : Marking) :
    Rooted (items.flatMap roots) marking (items.foldl action marking) := by
  induction items generalizing marking with
  | nil => exact .refl marking
  | cons item rest ih => exact (rooted marking item).trans (ih _)

theorem of_mem_iff (rooted : Rooted roots pre post) (same : ∀ addr, addr ∈ roots ↔ addr ∈ others) :
    Rooted others pre post := by
  refine ⟨fun addr => ?_, rooted.stack⟩
  simp only [rooted.marks, same]

end Rooted

section
variable {cfg : Config}

theorem Marking.scanWords_rooted (heap : Heap cfg.platform) (marking : Marking) (words : List Nat) :
    Rooted (words.filter heap.isObject) marking (marking.scanWords cfg heap words) :=
  (Rooted.foldl (fun marking word => Rooted.markConservativeRoot marking (some word)) _
    marking).of_mem_iff (by simp)

theorem Marking.scanThread_rooted (heap : Heap cfg.platform) (marking : Marking)
    (thread : ThreadRoots) :
    Rooted (thread.roots heap) marking (marking.scanThread cfg heap thread) := by
  have object := Rooted.markConservativeRoot marking thread.thread
  have exception := object.trans (.markConservativeRoot _ thread.exception)
  have stack := exception.trans (Marking.scanWords_rooted heap _ thread.stack)
  exact stack.trans (.foldl (fun marking frame =>
    (Rooted.markConservativeRoot marking frame.1).trans
      (Marking.scanWords_rooted heap _ frame.2)) thread.frames _)

theorem markRoots_rooted (gc : Collector cfg.platform) :
    Rooted gc.roots clearMarkBits (markRoots cfg gc) := by
  have oom := Rooted.markRoot clearMarkBits gc.oom
  have boot := oom.trans (.foldl Rooted.markRoot (gc.bootClasses.map some) _)
  have prim := boot.trans (.foldl Rooted.markRoot gc.primClasses _)
  have global := prim.trans (.foldl Rooted.markConservativeRoot gc.globalRefs _)
  have threads := global.trans (.foldl (Marking.scanThread_rooted gc.heap) gc.threads _)
  refine threads.of_mem_iff fun addr => ?_
  simp [Collector.roots, reduceOption_mem_iff]

theorem markReachable_complete (gc : Collector cfg.platform) (soft : Bool) :
    Marking.Complete cfg gc.heap soft (markRoots cfg gc) (markReachable cfg soft gc) :=
  Marking.scanHeapAndMark_complete (markRoots_rooted gc).stack

theorem markReachable_settled (gc : Collector cfg.platform) (soft : Bool)
    (level : Mark) (addr : Nat) :
    Settled cfg gc.heap soft level (markReachable cfg soft gc).marks addr :=
  Marking.scanHeapAndMark_settled (markRoots_rooted gc).stack level addr

/-! ## Finalisers -/

variable {heap : Heap cfg.platform} {soft : Bool}

variable {marking : Marking}

theorem Marking.runMark_below (empty : marking.stack = []) (element : Nat) :
    StackBelow finalizerMark (marking.markAndPush cfg element finalizerMark) := by
  obtain ⟨marks, -, -, outcome⟩ := markAndPush_cases cfg marking element finalizerMark
  intro addr mem
  have isElement : addr = element := by
    rcases outcome with ⟨-, stack, -⟩ | ⟨-, stack, -⟩ | ⟨-, stack, -⟩ <;>
      simp [stack, empty] at mem
    exact mem
  rw [marks, isElement, update_self]
  decide

variable (soft) in
theorem Marking.runMark_spec (empty : marking.stack = [])
    (scanned : marking.scanPtr = heap.limit) (element : Nat) :
    (marking.runMark cfg heap soft element).stack = [] ∧
    (marking.runMark cfg heap soft element).scanPtr = heap.limit ∧
    Raised cfg heap soft finalizerMark (update marking.marks element finalizerMark)
      (marking.runMark cfg heap soft element).marks := by
  obtain ⟨marks, scanPtr, -, -⟩ := markAndPush_cases cfg marking element finalizerMark
  have below : StackBelow finalizerMark (marking.markAndPush cfg element finalizerMark) :=
    runMark_below empty element
  have drain : Drain cfg heap soft finalizerMark _ _ := markStack_drain below
  refine ⟨markStack_stack below (scanPtr.trans scanned).le, ?_, ?_⟩
  · exact drain.scanPtr.trans (scanPtr.trans scanned)
  · exact marks ▸ drain.raised

theorem Marking.runMarks_invariant (holds : Marking → Prop) (elements : List Nat)
    (step : ∀ element ∈ elements, ∀ marking : Marking, marking.stack = [] →
      marking.scanPtr = heap.limit → holds marking → holds (marking.runMark cfg heap soft element))
    (empty : marking.stack = []) (scanned : marking.scanPtr = heap.limit)
    (initially : holds marking) :
    (elements.foldl (runMark cfg heap soft) marking).stack = [] ∧
      holds (elements.foldl (runMark cfg heap soft) marking) := by
  induction elements generalizing marking with
  | nil => exact ⟨empty, initially⟩
  | cons element rest ih =>
    have next := runMark_spec soft empty scanned element
    exact ih (fun other mem => step other (by simp [mem])) next.1 next.2.1
      (step element (by simp) _ empty scanned initially)

theorem Marking.runMarks_brings (holds : Marking → Prop) {elements : List Nat}
    (mem : element ∈ elements)
    (brings : ∀ marking : Marking, marking.stack = [] → marking.scanPtr = heap.limit →
      holds (marking.runMark cfg heap soft element))
    (keeps : ∀ other, ∀ marking : Marking, marking.stack = [] → marking.scanPtr = heap.limit →
      holds marking → holds (marking.runMark cfg heap soft other))
    (empty : marking.stack = []) (scanned : marking.scanPtr = heap.limit) :
    holds (elements.foldl (runMark cfg heap soft) marking) := by
  induction elements generalizing marking with
  | nil => cases mem
  | cons first rest ih =>
    have next := runMark_spec soft empty scanned first
    rcases mem_cons.mp mem with rfl | later
    · exact (runMarks_invariant holds rest (fun other _ => keeps other) next.1 next.2.1
        (brings marking empty scanned)).2
    · exact ih later next.1 next.2.1

theorem markFinalisers_invariant (holds : (Nat → Mark) → Prop)
    (raise : ∀ marks next, Raise cfg gc.heap soft hardMark marks next → holds marks → holds next)
    (set : ∀ element ∈ queue.iterateObjectList.reduceOption, ∀ marks, holds marks →
      holds (update marks element finalizerMark))
    (empty : marking.stack = []) (scanned : marking.scanPtr = gc.heap.limit)
    (initially : holds marking.marks) :
    holds (markFinalisers cfg soft gc queue marking).marks := by
  have raised {marks next : Nat → Mark} (steps : Raised cfg gc.heap soft hardMark marks next)
      (start : holds marks) : holds next := steps.invariant holds raise start
  obtain ⟨stack, res⟩ := Marking.runMarks_invariant (fun marking => holds marking.marks)
    queue.iterateObjectList.reduceOption (fun element mem marking stack scanPtr start =>
      raised ((Marking.runMark_spec soft stack scanPtr element).2.2.mono (by decide))
        (set element mem _ start))
    empty scanned initially
  unfold markFinalisers
  dsimp only
  split
  · exact raised (Marking.scanHeapAndMark_complete stack).raised res
  · exact res

/-! ## JNI weak references -/

theorem objectFrom_placeholderFrom (platform : Platform) (object addr : Nat)
    (blocks : List Block) (other : Nat) :
    objectFrom platform other addr (placeholderFrom platform object addr blocks) =
      if other = object ∧ (objectFrom platform object addr blocks).isSome = true then
        some placeholder
      else
        objectFrom platform other addr blocks := by
  induction blocks generalizing addr with
  | nil => simp [placeholderFrom, objectFrom]
  | cons block rest ih =>
    rw [placeholderFrom]
    cases isObject : block.object with
    | none => simp [objectFrom, isObject, ih]
    | some =>
      by_cases here : object = addr + platform.headerSize
      · subst here
        simp only [Option.isSome_some, beq_self_eq_true, Bool.and_self, ↓reduceIte]
        split
        · rename_i larger
          have rejoined : addr + platform.minObjectSize +
              (block.size - platform.minObjectSize) = addr + block.size := by omega
          by_cases same : other = addr + platform.headerSize <;>
            simp [objectFrom, isObject, rejoined, same]
        · by_cases same : other = addr + platform.headerSize <;>
            simp [objectFrom, isObject, same]
      · simp only [objectFrom, isObject, Option.isSome_some, Bool.true_and, beq_iff_eq,
          here, ↓reduceIte, ih]
        by_cases first : other = addr + platform.headerSize
        · have ne : addr + platform.headerSize ≠ object := fun equal =>
            here equal.symm
          simp [first, ne]
        · simp [first]

theorem objectAt_convertToPlaceholder (heap : Heap cfg.platform) (object other : Nat) :
    (convertToPlaceholder heap object).objectAt other =
      if other = object ∧ (heap.objectAt object).isSome = true then
        some placeholder
      else
        heap.objectAt other :=
  objectFrom_placeholderFrom cfg.platform object heap.base heap.blocks other

/-- How the scan of the weak references changes a collector whose marks are
`marks`: only unmarked objects become placeholders. -/
structure WeakScan (marks : Nat → Mark) (pre post : Collector cfg.platform) : Prop where
  marked : ∀ object, marks object ≠ 0 → post.heap.objectAt object = pre.heap.objectAt object
  cleared : ∀ object, some object ∈ post.clearedWeakRefs →
    some object ∈ pre.clearedWeakRefs ∨ marks object = 0 ∧
      ∀ found, post.heap.objectAt object = some found → found = placeholder
  kept : ∀ object found, post.heap.objectAt object = some found →
    found = placeholder ∨ pre.heap.objectAt object = some found

theorem scanWeakGlobalRef_cases (state : Collector cfg.platform × Marking) (reference : Reference) :
    (scanWeakGlobalRef cfg state reference).2.marks = state.2.marks ∧
    ((scanWeakGlobalRef cfg state reference).1.heap = state.1.heap ∧
      (scanWeakGlobalRef cfg state reference).1.clearedWeakRefs = state.1.clearedWeakRefs ∨
    ∃ object, state.2.marks object = 0 ∧ (scanWeakGlobalRef cfg state reference).1.heap =
        convertToPlaceholder state.1.heap object ∧
      (scanWeakGlobalRef cfg state reference).1.clearedWeakRefs =
        state.1.clearedWeakRefs ++ [some object]) := by
  obtain ⟨gc, marking⟩ := state
  cases reference with
  | none => exact ⟨rfl, .inl ⟨rfl, rfl⟩⟩
  | some object =>
    simp only [scanWeakGlobalRef]
    split
    · exact ⟨rfl, .inl ⟨rfl, rfl⟩⟩
    · rename_i unmarked
      exact ⟨rfl, .inr ⟨object, by simpa using unmarked, rfl, rfl⟩⟩

theorem WeakScan.step (scan : WeakScan marks start state.1)
    (same : state.2.marks = marks) (reference : Reference) :
    WeakScan marks start (scanWeakGlobalRef cfg state reference).1 ∧
      (scanWeakGlobalRef cfg state reference).2.marks = marks := by
  obtain ⟨nextMarks, unchanged | ⟨object, unmarked, heap, cleared⟩⟩ :=
    scanWeakGlobalRef_cases state reference
  · exact ⟨⟨unchanged.1 ▸ scan.marked, unchanged.1 ▸ unchanged.2 ▸ scan.cleared,
      unchanged.1 ▸ scan.kept⟩, nextMarks.trans same⟩
  · rw [same] at unmarked
    refine ⟨⟨?_, ?_, ?_⟩, nextMarks.trans same⟩
    · intro other marked
      have ne : other ≠ object := by
        rintro rfl
        exact marked unmarked
      rw [heap, objectAt_convertToPlaceholder, if_neg fun both => ne both.1]
      exact scan.marked other marked
    · intro other mem
      have converted : ∀ found,
          (convertToPlaceholder state.1.heap object).objectAt object = some found →
            found = placeholder := by
        intro found
        rw [objectAt_convertToPlaceholder]
        split
        · exact fun equal => (some.inj equal).symm
        · intro isObject
          simp_all
      rw [heap]
      rw [cleared, mem_append, mem_singleton, some.injEq] at mem
      obtain rfl | isObject := eq_or_ne other object
      · exact .inr ⟨unmarked, converted⟩
      · rcases scan.cleared other (mem.resolve_right isObject) with earlier | ⟨zero, empty⟩
        · exact .inl earlier
        · refine .inr ⟨zero, ?_⟩
          rw [objectAt_convertToPlaceholder, if_neg fun both => isObject both.1]
          exact empty
    · intro other found
      rw [heap, objectAt_convertToPlaceholder]
      split
      · exact fun equal => .inl (some.inj equal).symm
      · exact scan.kept other found

theorem scanJNIWeakGlobalRefs_scan (gc : Collector cfg.platform) (marking : Marking) :
    WeakScan marking.marks gc (scanJNIWeakGlobalRefs cfg gc marking).1 ∧
      (scanJNIWeakGlobalRefs cfg gc marking).2.marks = marking.marks := by
  suffices pass : ∀ (references : List Reference) (state : Collector cfg.platform × Marking),
      WeakScan marking.marks gc state.1 → state.2.marks = marking.marks →
      WeakScan marking.marks gc (references.foldl (scanWeakGlobalRef cfg) state).1 ∧
        (references.foldl (scanWeakGlobalRef cfg) state).2.marks = marking.marks by
    refine pass gc.weakGlobalRefs _ ?_ rfl
    exact ⟨fun _ _ => rfl, fun _ => .inl, fun _ _ => .inr⟩
  intro references
  induction references with
  | nil => exact fun _ scan same => ⟨scan, same⟩
  | cons reference rest ih =>
    intro state scan same
    have next := scan.step same reference
    exact ih _ next.1 next.2

theorem mem_clearedWeakRefs (gc : Collector cfg.platform) (marking : Marking) (object : Nat) :
    some object ∈ (scanJNIWeakGlobalRefs cfg gc marking).1.clearedWeakRefs ↔
      some object ∈ gc.clearedWeakRefs ∨
        some object ∈ gc.weakGlobalRefs ∧ marking.marks object = 0 := by
  suffices pass : ∀ (references : List Reference) (state : Collector cfg.platform × Marking),
      state.2.marks = marking.marks →
      (some object ∈ (references.foldl (scanWeakGlobalRef cfg) state).1.clearedWeakRefs ↔
        some object ∈ state.1.clearedWeakRefs ∨
          some object ∈ references ∧ marking.marks object = 0) from
    pass gc.weakGlobalRefs _ rfl
  intro references
  induction references with
  | nil => simp
  | cons reference rest ih =>
    intro state same
    refine (ih _ ((scanWeakGlobalRef_cases state reference).1.trans same)).trans ?_
    cases reference with
    | none => simp [scanWeakGlobalRef]
    | some found =>
      by_cases marked : marking.marks found = 0
      · simp only [scanWeakGlobalRef, same, marked]
        obtain rfl | ne := eq_or_ne object found <;> simp_all
      · simp only [scanWeakGlobalRef, same]
        obtain rfl | ne := eq_or_ne object found <;> simp_all

theorem markJNIClearedWeakRef_marks (marking : Marking) (found object : Nat) :
    (markJNIClearedWeakRef marking (some found)).marks object =
      if object = found then marking.marks found ||| finalizerMark else marking.marks object :=
  update_apply ..

theorem markJNIClearedWeakRefs_hard
    (unlike : ∀ object, some object ∈ references → marking.marks object ≠ phantomMark)
    (addr : Nat) :
    (markJNIClearedWeakRefs references marking).marks addr = hardMark ↔
      marking.marks addr = hardMark := by
  have combine : ∀ mark : Mark, mark ≠ phantomMark → mark ||| finalizerMark ≠ phantomMark ∧
        (mark ||| finalizerMark = hardMark ↔ mark = hardMark) := by decide
  unfold markJNIClearedWeakRefs
  induction references generalizing marking with
  | nil => rfl
  | cons reference rest ih =>
    rw [foldl_cons]
    cases reference with
    | none => exact ih fun object mem => unlike object (by simp [mem])
    | some found =>
      have own := combine _ (unlike found (by simp))
      refine (ih ?_).trans ?_
      · intro object mem
        rw [markJNIClearedWeakRef_marks]
        split
        · exact own.1
        · exact unlike object (by simp [mem])
      · rw [markJNIClearedWeakRef_marks]
        split
        · rename_i same
          rw [same]
          exact own.2
        · rfl

theorem markJNIClearedWeakRefs_ne_zero (addr : Nat) :
    (markJNIClearedWeakRefs references marking).marks addr ≠ 0 ↔
      marking.marks addr ≠ 0 ∨ some addr ∈ references := by
  have combine : ∀ mark : Mark, mark ||| finalizerMark ≠ 0 := by decide
  unfold markJNIClearedWeakRefs
  induction references generalizing marking with
  | nil => simp
  | cons reference rest ih =>
    rw [foldl_cons]
    refine ih.trans ?_
    cases reference with
    | none => simp [markJNIClearedWeakRef]
    | some found =>
      rw [markJNIClearedWeakRef_marks, mem_cons, some.injEq]
      split
      · rename_i same
        simp [combine, same]
      · rename_i ne
        simp [ne]

variable (cfg) in
def finalisedMarking (gc : Collector cfg.platform) (soft : Bool) : Marking :=
  let marking := markReachable cfg soft gc
  markFinalisers cfg soft gc (queueFinalisers cfg gc marking) marking

theorem doMark_spec (gc : Collector cfg.platform) (soft : Bool) :
    WeakScan (finalisedMarking cfg gc soft).marks gc (doMark cfg gc soft).1 ∧
    (∀ object, some object ∈ (doMark cfg gc soft).1.clearedWeakRefs ↔
      some object ∈ gc.clearedWeakRefs ∨
        some object ∈ gc.weakGlobalRefs ∧ (finalisedMarking cfg gc soft).marks object = 0) ∧
    ∃ marking, marking.marks = (finalisedMarking cfg gc soft).marks ∧ (doMark cfg gc soft).2 =
        markJNIClearedWeakRefs (doMark cfg gc soft).1.clearedWeakRefs marking := by
  let scanned : Collector cfg.platform := { gc with
    hasFinaliser := gc.hasFinaliser.filter fun object =>
      (markReachable cfg soft gc).marks object == hardMark
    runFinaliser := queueFinalisers cfg gc (markReachable cfg soft gc)
    reference := gc.reference.clearUnmarked fun object =>
      (finalisedMarking cfg gc soft).marks object == 0 }
  obtain ⟨scan, marks⟩ := scanJNIWeakGlobalRefs_scan scanned (finalisedMarking cfg gc soft)
  exact ⟨⟨scan.marked, scan.cleared, scan.kept⟩, mem_clearedWeakRefs scanned _, _, marks, rfl⟩

end

end JamVM.Alloc
