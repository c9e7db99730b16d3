import JamVM.Alloc.MarkExact

/-! # What is threaded is marked

Compaction threads more references out of a class or a loader than marking
follows: the superclass, the interfaces, the element class, resolved class
constants and all of a loader's table. Such a class is marked only if marking
reaches it in another way, as it does from the loader that defines it.
-/

namespace JamVM.Alloc

open Heap Marking List

def Constant.classes : Constant → List Reference
  | .resolvedClass type => [type]
  | _ => []

section
variable (cfg : Config) (heap : Heap cfg.platform) (marks : Nat → Mark)

/-! ## `threadChildren` -/

def threadLoaderClasses (object : Object) : List Reference := (object.loaderTable.getD []).map some

/-- A referent without a hard mark is cleared instead, unless the reference is a
phantom reference. -/
def threadReferent (kind : ReferenceKind) (object : Object) : List Reference :=
  match object.field cfg.referentOffset with
  | none => []
  | some referent => if kind == .phantom || marks referent == hardMark then [some referent] else []

def threadSpecial (cb : ClassBlock) (object : Object) : List Reference :=
  if cb.isSpecial then
    if cb.flags.classClass then
      match object.classBlock with
      | some data => threadClassData data
      | none => []
    else if cb.flags.classLoader then
      threadLoaderClasses object
    else
      match cb.flags.reference with
      | some kind => threadReferent cfg marks kind object
      | none => []
  else
    []

def threadChildren (addr : Nat) : List Reference :=
  match heap.objectAt addr with
  | none => []
  | some object =>
    match object.classRef, object.classRef.bind heap.classBlock with
    | some type, some cb =>
      (if cb.hasArrayName then
        if cb.hasReferenceElements then object.elements else []
      else
        threadSpecial cfg marks cb object ++
          (cb.referenceOffsets cfg.platform.wordSize).map object.field) ++ [some type]
    | _, _ => []

/-! ## Named classes -/

variable (soft : Bool)

def Follows (source target : Nat) : Prop :=
  ∃ strength, (some target, strength) ∈ children cfg heap soft source

/-! The classes that are threaded out of a class or a loader although marking does not follow the
reference. -/

def namedByData (cb : ClassBlock) : List Reference :=
  cb.super :: cb.interfaces ++
    (if cb.isArray then [cb.elementClass, cb.componentClass] else []) ++
    cb.imethodTable ++ cb.constantPool.flatMap Constant.classes

def namedBySpecial (cb : ClassBlock) (object : Object) : List Reference :=
  if cb.isSpecial then
    if cb.flags.classClass then
      match object.classBlock with
      | some data => namedByData data
      | none => []
    else if cb.flags.classLoader then
      threadLoaderClasses object
    else
      []
  else
    []

def namedClasses (addr : Nat) : List Reference :=
  match heap.objectAt addr with
  | none => []
  | some object =>
    match object.classRef, object.classRef.bind heap.classBlock with
    | some _, some cb => if cb.hasArrayName then [] else namedBySpecial cb object
    | _, _ => []

variable (gc : Collector cfg.platform)

def Live (addr : Nat) : Prop :=
  ∃ start, (start ∈ gc.roots ∨ start ∈ finaliserQueue cfg gc soft) ∧
    Relation.ReflTransGen (Follows cfg gc.heap soft) start addr

/-- Marking comes to every class that a live object names, or a JNI weak reference keeps the
block. -/
def Anchored : Prop :=
  ∀ addr type, Live cfg soft gc addr → some type ∈ namedClasses cfg gc.heap addr →
    Live cfg soft gc type ∨ some type ∈ gc.weakGlobalRefs ∨ some type ∈ gc.clearedWeakRefs

/-! ## Marked objects have marked children -/

variable {cfg heap soft}

theorem marked_iff_one_le {mark : Mark} : mark ≠ 0 ↔ 1 ≤ mark :=
  ⟨Fin.one_le_of_ne_zero, fun high zero => absurd (zero ▸ high) (by decide)⟩

variable (cfg heap soft) in
def Closed (marks : Nat → Mark) : Prop :=
  ∀ source target, marks source ≠ 0 → Follows cfg heap soft source target → marks target ≠ 0

theorem Closed.of_settled {marks : Nat → Mark}
    (settled : ∀ addr, Settled cfg heap soft 1 marks addr) :
    Closed cfg heap soft marks := by
  rintro source target marked ⟨strength, child⟩
  exact marked_iff_one_le.mpr
    (settled source (marked_iff_one_le.mp marked) target strength child (.inr le_rfl))

variable {target addr : Nat} {marking : Marking} {object : Object}

theorem Closed.path {marks : Nat → Mark} (closed : Closed cfg heap soft marks)
    (marked : marks source ≠ 0)
    (path : Relation.ReflTransGen (Follows cfg heap soft) source target) :
    marks target ≠ 0 := by
  induction path with
  | refl => exact marked
  | tail _ follows ih => exact closed _ _ ih follows

theorem markAndPush_covered_one (covered : Covered cfg heap soft 1 marking addr) :
    Covered cfg heap soft 1 (marking.markAndPush cfg element finalizerMark) addr := by
  refine covered_markAndPush covered fun isElement settled => ?_
  intro high target strength child carries
  rw [Function.update_of_ne isElement] at high
  have pre := settled high target strength child carries
  rw [Function.update_apply]
  split
  · decide
  · exact pre

theorem runMark_finished (empty : marking.stack = []) (scanned : marking.scanPtr = heap.limit)
    (finished : ∀ addr, Finished cfg heap soft 1 marking addr)
    (element addr : Nat) :
    Finished cfg heap soft 1 (marking.runMark cfg heap soft element) addr := by
  have below : StackBelow finalizerMark (marking.markAndPush cfg element finalizerMark) :=
    runMark_below empty element
  have drain : Drain cfg heap soft finalizerMark _ _ := markStack_drain below
  have next := runMark_spec soft empty scanned element
  have covered := drain.covered 1 (fun other => markAndPush_covered_one (by
    rcases finished other with lost | settled
    · exact .inr (.inr (.inl lost))
    · exact .inr (.inr (.inr settled)))) addr
  rcases covered with above | mem | lost | settled
  · exact .inr (Settled.of_no_object (objectFrom_of_le heap.valid (next.2.1.ge.trans above)))
  · rw [show (markStack cfg heap soft _).stack = [] from next.1] at mem
    cases mem
  · exact .inl lost
  · exact .inr settled

theorem markFinalisers_closed {gc : Collector cfg.platform}
    (queue : ObjectList Nat) (empty : marking.stack = [])
    (scanned : marking.scanPtr = gc.heap.limit)
    (settled : ∀ addr, Settled cfg gc.heap soft 1 marking.marks addr) :
    Closed cfg gc.heap soft (markFinalisers cfg soft gc queue marking).marks := by
  obtain ⟨stack, finished⟩ := runMarks_invariant
    (fun marking => ∀ addr, Finished cfg gc.heap soft 1 marking addr)
    queue.iterateObjectList.reduceOption (fun element _ _ stack scanPtr finished =>
      runMark_finished stack scanPtr finished element)
    empty scanned fun addr => .inr (settled addr)
  apply Closed.of_settled
  unfold markFinalisers
  dsimp only
  split
  · exact scanHeapAndMark_settled stack 1
  · rename_i complete
    intro addr
    exact (finished addr).resolve_left (by simpa using complete)

/-! ## Threaded references -/

theorem mem_strongly
    (mem : reference ∈ references) : (reference, Strength.strong) ∈ strongly references :=
  mem_map_of_mem mem

theorem threadClassData_cases (isClass : object.classBlock = some data)
    (threaded : some target ∈ threadClassData data) :
    some target ∈ classChildren object ∨ some target ∈ namedByData data := by
  have constants : some target ∈ data.constantReferences → some target ∈ data.constantObjects ∨
        some target ∈ data.constantPool.flatMap Constant.classes := by
    intro mem
    obtain ⟨constant, inPool, isReference⟩ := mem_flatMap.mp mem
    cases constant with
    | resolvedClass => exact .inr (mem_flatMap.mpr ⟨_, inPool, isReference⟩)
    | _ => exact .inl (mem_flatMap.mpr ⟨_, inPool, isReference⟩)
  simp only [classChildren, namedByData, isClass, threadClassData, cons_append,
    mem_cons, mem_append] at threaded ⊢
  tauto

theorem namedByData_threaded (named : some target ∈ namedByData data) :
    some target ∈ threadClassData data := by
  have constants : some target ∈ data.constantPool.flatMap Constant.classes →
      some target ∈ data.constantReferences := by
    intro mem
    obtain ⟨constant, inPool, isReference⟩ := mem_flatMap.mp mem
    refine mem_flatMap.mpr ⟨_, inPool, ?_⟩
    cases constant with
    | resolvedClass => exact isReference
    | _ => cases isReference
  simp only [namedByData, threadClassData, cons_append, mem_cons, mem_append] at named ⊢
  tauto

theorem threadReferent_cases (threaded : some target ∈ threadReferent cfg marks kind object) :
    (some target, .phantom) ∈ referentChildren cfg soft kind object ∨ marks target = hardMark := by
  unfold threadReferent at threaded
  split at threaded
  · cases threaded
  · rename_i referent isReferent
    split at threaded
    · rename_i kept
      obtain rfl : target = referent := by simpa using threaded
      rcases Bool.or_eq_true_iff.mp kept with phantom | hard
      · obtain rfl : kind = .phantom := by simpa using phantom
        exact .inl (by simp [referentChildren, isReferent])
      · exact .inr (by simpa using hard)
    · cases threaded

variable (soft) in
theorem threadSpecial_cases (threaded : some target ∈ threadSpecial cfg marks cb object) :
    (∃ strength, (some target, strength) ∈ specialChildren cfg heap soft addr cb object) ∨
    some target ∈ namedBySpecial cb object ∨ marks target = hardMark := by
  cases special : cb.isSpecial with
  | false => simp [threadSpecial, special] at threaded
  | true =>
    cases isClass : cb.flags.classClass with
    | true =>
      simp only [threadSpecial, specialChildren, namedBySpecial, special, isClass,
        ↓reduceIte] at threaded ⊢
      split at threaded
      · rename_i isData
        rcases threadClassData_cases isData threaded with child | named
        · exact .inl ⟨.strong, mem_strongly child⟩
        · exact .inr (.inl named)
      · cases threaded
    | false =>
      cases isLoader : cb.flags.classLoader with
      | true => exact .inr (.inl (by simpa [threadSpecial, namedBySpecial, special, isClass,
          isLoader] using threaded))
      | false =>
        cases isReference : cb.flags.reference with
        | some =>
          simp only [threadSpecial, specialChildren, special, isClass, isLoader, isReference,
            ↓reduceIte, Bool.false_eq_true] at threaded ⊢
          rcases threadReferent_cases marks threaded with child | hard
          · exact .inl ⟨.phantom, child⟩
          · exact .inr (.inr hard)
        | none => simp [threadSpecial, isClass, isLoader, isReference] at threaded

theorem namedBySpecial_threaded (named : some target ∈ namedBySpecial cb object) :
    some target ∈ threadSpecial cfg marks cb object := by
  unfold namedBySpecial at named
  unfold threadSpecial
  split at named
  · rw [if_pos (by assumption)]
    split at named
    · rw [if_pos (by assumption)]
      split at named
      · exact namedByData_threaded named
      · cases named
    · rw [if_neg (by assumption)]
      split at named
      · rwa [if_pos (by assumption)]
      · cases named
  · cases named

theorem namedClasses_threaded (named : some target ∈ namedClasses cfg heap addr) :
    some target ∈ threadChildren cfg heap marks addr := by
  unfold namedClasses at named
  unfold threadChildren
  split at named
  · cases named
  · split at named
    · split at named
      · cases named
      · rw [if_neg (by assumption)]
        exact mem_append_left _ (mem_append_left _ (namedBySpecial_threaded marks named))
    · cases named

variable (soft) in
theorem threadChildren_cases (threaded : some target ∈ threadChildren cfg heap marks addr) :
    Follows cfg heap soft addr target ∨
      some target ∈ namedClasses cfg heap addr ∨ marks target = hardMark := by
  unfold threadChildren at threaded
  split at threaded
  · cases threaded
  · rename_i object isObject
    split at threaded
    · rename_i type cb isType isBlock
      have followed : ∀ strength, (some target, strength) ∈ (some type, Strength.strong) ::
          (if cb.hasArrayName then
            strongly (if cb.hasReferenceElements then object.elements else [])
          else
            specialChildren cfg heap soft addr cb object ++
              strongly ((cb.referenceOffsets cfg.platform.wordSize).map object.field)) →
          Follows cfg heap soft addr target := by
        intro strength mem
        refine ⟨strength, ?_⟩
        simp only [children, isObject, isType]
        rw [isType] at isBlock
        simp only [isBlock]
        exact mem
      rcases mem_append.mp threaded with mem | isClass
      · split at mem
        · rename_i isArray
          refine .inl (followed .strong ?_)
          rw [if_pos isArray]
          exact mem_cons_of_mem _ (mem_strongly mem)
        · rename_i notArray
          rw [if_neg notArray] at followed
          rcases mem_append.mp mem with special | field
          · rcases threadSpecial_cases marks soft special with ⟨strength, child⟩ | named | hard
            · exact .inl (followed strength (mem_cons_of_mem _ (mem_append_left _ child)))
            · have found : heap.classBlock type = some cb := by simpa [isType] using isBlock
              exact .inr (.inl (by simpa [namedClasses, isObject, isType, found, notArray]
                using named))
            · exact .inr (.inr hard)
          · exact .inl (followed .strong
              (mem_cons_of_mem _ (mem_append_right _ (mem_strongly field))))
      · refine .inl (followed .strong ?_)
        rw [mem_singleton.mp isClass]
        exact mem_cons_self ..
    · cases threaded

variable (soft) in
theorem threadChildren_eq (kept : ∀ object found, final.objectAt object = some found →
      found = placeholder ∨ first.objectAt object = some found)
    (sameObject : final.objectAt addr = first.objectAt addr)
    (sameChild : ∀ child, Follows cfg first soft addr child →
      final.objectAt child = first.objectAt child) :
    threadChildren cfg final marks addr = threadChildren cfg first marks addr := by
  unfold threadChildren
  rw [sameObject]
  cases isObject : first.objectAt addr with
  | none => rfl
  | some object =>
    cases isType : object.classRef with
    | none => simp only [isType]
    | some type =>
      have same : final.classBlock type = first.classBlock type := by
        cases isBlock : first.classBlock type with
        | some =>
          rw [← isBlock, classBlock, classBlock, sameChild type]
          refine ⟨.strong, ?_⟩
          simp [children, isObject, isType, isBlock]
        | none =>
          cases isFinal : final.objectAt type with
          | none => simp [classBlock, isFinal]
          | some found =>
            rcases kept type found isFinal with rfl | earlier
            · simp [classBlock, isFinal, placeholder]
            · simpa [classBlock, isFinal, earlier] using isBlock
      simp only [isType, Option.bind_some, same]

theorem finalisedMarking_closed (gc : Collector cfg.platform) (soft : Bool) :
    Closed cfg gc.heap soft (finalisedMarking cfg gc soft).marks :=
  have complete := markReachable_complete gc soft
  markFinalisers_closed _ complete.stack complete.scanPtr (markReachable_settled gc soft 1)

theorem live_of_finalised (gc : Collector cfg.platform) (soft : Bool)
    (marked : (finalisedMarking cfg gc soft).marks addr ≠ 0) : Live cfg soft gc addr := by
  have complete := markReachable_complete gc soft
  have raised (marks next : Nat → Mark) (raise : Raise cfg gc.heap soft hardMark marks next)
      (live : ∀ addr, marks addr ≠ 0 → Live cfg soft gc addr) (addr : Nat)
      (marked : next addr ≠ 0) : Live cfg soft gc addr := by
    obtain ⟨source, target, strength, child, sourceMarked, -, -, rfl⟩ := raise
    obtain rfl | ne := eq_or_ne addr target
    · obtain ⟨start, isStart, path⟩ := live source sourceMarked
      exact ⟨start, isStart, path.tail ⟨strength, child⟩⟩
    · exact live addr (by rwa [Function.update_of_ne ne] at marked)
  refine markFinalisers_invariant (fun marks => ∀ addr, marks addr ≠ 0 → Live cfg soft gc addr)
    raised ?_ complete.stack complete.scanPtr ?_ addr marked
  · intro element mem marks live addr marked
    obtain rfl | ne := eq_or_ne addr element
    · exact ⟨addr, .inr mem, .refl⟩
    · exact live addr (by rwa [Function.update_of_ne ne] at marked)
  · refine complete.raised.invariant _ raised fun addr marked => ?_
    rw [(markRoots_rooted gc).marks] at marked
    split at marked
    · exact ⟨addr, .inl (by assumption), .refl⟩
    · exact absurd rfl marked

theorem marked_mono {marks next : Nat → Mark} (le : marks addr ≤ next addr)
    (marked : marks addr ≠ 0) : next addr ≠ 0 :=
  fun zero => marked (le_antisymm (zero ▸ le) (Fin.zero_le _))

theorem marked_update {marks : Nat → Mark} (element : Nat) (marked : marks addr ≠ 0) :
    Function.update marks element finalizerMark addr ≠ 0 := by
  rw [Function.update_apply]
  split
  · decide
  · exact marked

theorem queueMarking_marks {gc : Collector cfg.platform}
    (queued : start ∈ finaliserQueue cfg gc soft) : (queueMarking cfg gc soft).marks start ≠ 0 := by
  have complete := markReachable_complete gc soft
  refine runMarks_brings (fun marking => marking.marks start ≠ 0) queued ?_ ?_
    complete.stack complete.scanPtr
  · intro marking empty scanned
    refine marked_mono ((runMark_spec soft empty scanned start).2.2.le start) ?_
    rw [Function.update_self]
    decide
  · intro other marking empty scanned marked
    exact marked_mono ((runMark_spec soft empty scanned other).2.2.le start)
      (marked_update other marked)

theorem finalisedMarking_iff (gc : Collector cfg.platform) (soft : Bool) (addr : Nat) :
    (finalisedMarking cfg gc soft).marks addr ≠ 0 ↔ Live cfg soft gc addr := by
  refine ⟨live_of_finalised gc soft, ?_⟩
  rintro ⟨start, isStart, path⟩
  refine (finalisedMarking_closed gc soft).path ?_ path
  have complete := markReachable_complete gc soft
  rcases isStart with root | queued
  · refine markFinalisers_invariant (fun marks => marks start ≠ 0)
      (fun _ _ raise => marked_mono (raise.le start)) (fun element _ _ => marked_update element)
      complete.stack complete.scanPtr ?_
    rw [(markReachable_exact start).mpr (.root root)]
    decide
  · have empty : (queueMarking cfg gc soft).stack = [] :=
      (runMarks_invariant (fun _ => True) _ (fun _ _ _ _ _ _ => trivial) complete.stack
        complete.scanPtr trivial).1
    unfold finalisedMarking markFinalisers
    dsimp only
    split
    · exact marked_mono ((scanHeapAndMark_complete empty).raised.le start)
        (queueMarking_marks queued)
    · exact queueMarking_marks queued

end

/-! ## Two loaders -/

/-- The classes `Class` and `Loader` at 8 and 24, a loader at 40 with the class
`C` at 56 and its superclass `S` at 72, and the loader at 88 that defines `S`.
The first loader may refer to the second. -/
def loaderHeap (parent : Reference) : Heap smallConfig.platform where
  base := 4
  blocks := [some (classObject { name := "Class".toList, flags := { classClass := true } }),
    some (classObject { name := "Loader".toList, flags := { classLoader := true },
                        refsOffsetsTable := [(8, 12)] }),
    some { classRef := some 24, loaderTable := some [56, 72], field := fun _ => parent },
    some (classObject { name := "C".toList, classLoader := some 40, super := some 72 }),
    some (classObject { name := "S".toList, classLoader := some 88 }),
    some { classRef := some 24, loaderTable := some [72] }].map (Block.mk 16)
  valid := by
    have valid (object : Option Object) : Block.Valid smallConfig.platform ⟨16, object⟩ :=
      ⟨⟨2, rfl⟩, Nat.zero_lt_succ 15, fun _ => le_rfl⟩
    simp [valid]

def loaderCollector (parent : Reference) : Collector smallConfig.platform where
  heap := loaderHeap parent
  oom := none
  bootClasses := [8, 24]
  primClasses := []
  globalRefs := []
  threads := [{ thread := none, exception := none, stack := [40], frames := [] }]
  hasFinaliser := []
  runFinaliser := ObjectList.empty
  reference := ObjectList.empty
  weakGlobalRefs := []
  clearedWeakRefs := []

theorem loaderCollector_anchored : Anchored smallConfig false (loaderCollector (some 88)) := by
  have loader : Live smallConfig false (loaderCollector (some 88)) 40 :=
    ⟨40, .inl (by decide), .refl⟩
  have follows {source target : Nat}
      (child : (some target, .strong) ∈ children smallConfig (loaderHeap (some 88)) false source)
      (live : Live smallConfig false (loaderCollector (some 88)) source) :
      Live smallConfig false (loaderCollector (some 88)) target := by
    obtain ⟨start, isStart, path⟩ := live
    exact ⟨start, isStart, path.tail ⟨.strong, child⟩⟩
  have tables : ∀ addr < 100, namedClasses smallConfig (loaderHeap (some 88)) addr ⊆
      [none, some 56, some 72] := by decide +kernel
  intro addr type _ named
  have inside : addr < 100 := by
    by_contra outside
    have absent : (loaderHeap (some 88)).objectAt addr = none :=
      objectFrom_of_le (loaderHeap (some 88)).valid
        ((by decide : _ ≤ 100).trans (not_lt.mp outside))
    simp [namedClasses, loaderCollector, absent] at named
  have either : type = 56 ∨ type = 72 := by simpa using tables addr inside named
  have parent : Live smallConfig false (loaderCollector (some 88)) 88 :=
    follows (by decide +kernel) loader
  rcases either with rfl | rfl
  · exact .inl (follows (by decide +kernel) loader)
  · exact .inl (follows (by decide +kernel) parent)

end JamVM.Alloc
