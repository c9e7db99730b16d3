import JamVM.Alloc.MarkPhases

/-! # Hard marks and reachability

After the first heap scan the hard marks are exact. The finaliser pass then sets
the mark of every queued object, so it lowers the mark of a queued object that
is still reachable. Without such objects the marks stay exact to the end.
-/

namespace JamVM.Alloc

open Function

section
variable (cfg : Config) (gc : Collector cfg.platform) (soft : Bool)

inductive HardReachable : Nat → Prop
  | root {addr : Nat} : addr ∈ gc.roots → HardReachable addr
  | child {source target : Nat} : HardReachable source →
      (some target, Strength.strong) ∈ children cfg gc.heap soft source →
      HardReachable target

def Exact (marks : Nat → Mark) : Prop :=
  ∀ addr, marks addr = hardMark ↔ HardReachable cfg gc soft addr

def Sound (marks : Nat → Mark) : Prop :=
  ∀ addr, marks addr = hardMark → HardReachable cfg gc soft addr

variable {cfg gc soft}

variable {marks next : Nat → Mark}

theorem Sound.raise (sound : Sound cfg gc soft marks)
    (raise : Raise cfg gc.heap soft hardMark marks next) :
    Sound cfg gc soft next := by
  obtain ⟨source, target, strength, child, -, -, -, rfl⟩ := raise
  intro addr hard
  rw [update_apply] at hard
  split at hard
  · rename_i same
    cases strength with
    | strong => exact same ▸ .child (sound source hard) child
    | phantom => exact absurd hard (show phantomMark ≠ hardMark by decide)
  · exact sound addr hard

theorem Exact.raise (exact : Exact cfg gc soft marks)
    (raise : Raise cfg gc.heap soft hardMark marks next) :
    Exact cfg gc soft next := by
  have sound : Sound cfg gc soft marks := fun addr => (exact addr).mp
  refine fun addr => ⟨sound.raise raise addr, fun reachable => ?_⟩
  have pre := (exact addr).mpr reachable
  exact le_antisymm (Fin.le_last _) (pre ▸ raise.le addr)

theorem Exact.set (exact : Exact cfg gc soft marks)
    (unreachable : ¬ HardReachable cfg gc soft element) :
    Exact cfg gc soft (update marks element finalizerMark) := by
  intro addr
  rw [update_apply]
  split
  · rename_i same
    exact ⟨fun wrong => absurd wrong (by decide), fun wrong => absurd (same ▸ wrong) unreachable⟩
  · exact exact addr

theorem markReachable_exact : Exact cfg gc soft (markReachable cfg soft gc).marks := by
  have rooted := markRoots_rooted gc
  have complete := markReachable_complete gc soft
  have start : Sound cfg gc soft (markRoots cfg gc).marks := by
    intro addr hard
    rw [rooted.marks] at hard
    split at hard
    · exact .root (by assumption)
    · exact absurd hard (show (0 : Mark) ≠ hardMark by decide)
  have sound := complete.raised.invariant (Sound cfg gc soft)
    (fun _ _ raise pre => pre.raise raise) start
  refine fun addr => ⟨sound addr, fun reachable => ?_⟩
  induction reachable with
  | @root addr isRoot =>
    have hard : (markRoots cfg gc).marks addr = hardMark := by rw [rooted.marks, if_pos isRoot]
    exact le_antisymm (Fin.le_last _) (hard ▸ complete.raised.le addr)
  | @child source target _ child ih =>
    have settled := markReachable_settled gc soft hardMark source
    exact le_antisymm (Fin.le_last _) (settled ih.ge target .strong child (.inl rfl))

theorem mem_queueFinalisers (inRange : gc.runFinaliser.InRange)
    (mem : some object ∈ (queueFinalisers cfg gc marking).iterateObjectList) :
    some object ∈ gc.runFinaliser.iterateObjectList ∨ marking.marks object ≠ hardMark := by
  suffices pass : ∀ (objects : List Nat) (queue : ObjectList Nat), queue.InRange →
      (∀ object ∈ objects, marking.marks object ≠ hardMark) →
      some object ∈ (objects.foldl ObjectList.addToObjectList queue).iterateObjectList →
        some object ∈ queue.iterateObjectList ∨ marking.marks object ≠ hardMark by
    refine pass _ _ inRange (fun object inList => ?_) mem
    simpa using List.of_mem_filter inList
  intro objects
  induction objects with
  | nil => exact fun _ _ _ => .inl
  | cons first rest ih =>
    intro queue queueInRange unmarked inQueue
    have added := queueInRange.addToObjectList first
    rcases ih _ added.1 (fun object inRest => unmarked object (by simp [inRest]))
      inQueue with earlier | soft
    · rcases added.2 _ earlier with visited | isFirst
      · exact .inl visited
      · exact .inr (Option.some.inj isFirst ▸ unmarked first (by simp))
    · exact .inr soft

variable (cfg gc soft) in
def Unreferenced (addr : Nat) : Prop :=
  ∀ source strength, (some addr, strength) ∉ children cfg gc.heap soft source

theorem not_phantom_raise (unreferenced : Unreferenced cfg gc soft addr)
    (raise : Raise cfg gc.heap soft hardMark marks next)
    (pre : marks addr ≠ phantomMark) : next addr ≠ phantomMark := by
  obtain ⟨source, target, strength, child, -, -, -, rfl⟩ := raise
  have ne : addr ≠ target := by
    rintro rfl
    exact unreferenced source strength child
  rwa [update_of_ne ne]

theorem markReachable_not_phantom (unreferenced : Unreferenced cfg gc soft addr) :
    (markReachable cfg soft gc).marks addr ≠ phantomMark := by
  have complete := markReachable_complete gc soft
  have start : (markRoots cfg gc).marks addr ≠ phantomMark := by
    rw [(markRoots_rooted gc).marks]
    split
    · decide
    · exact show (0 : Mark) ≠ phantomMark by decide
  exact complete.raised.invariant (fun marks => marks addr ≠ phantomMark)
    (fun _ _ => not_phantom_raise unreferenced) start

theorem doMark_hard
    (placeholders : ∀ object, some object ∈ gc.clearedWeakRefs → Unreferenced cfg gc soft object)
    (addr : Nat) : (doMark cfg gc soft).2.marks addr = hardMark ↔
      (finalisedMarking cfg gc soft).marks addr = hardMark := by
  have complete := markReachable_complete gc soft
  have unlike : ∀ object, some object ∈ gc.clearedWeakRefs →
      (finalisedMarking cfg gc soft).marks object ≠ phantomMark := by
    intro object cleared
    have unreferenced := placeholders object cleared
    refine markFinalisers_invariant (fun marks => marks object ≠ phantomMark)
      (fun _ _ => not_phantom_raise unreferenced) ?_ complete.stack complete.scanPtr
      (markReachable_not_phantom unreferenced)
    intro element _ marks pre
    rw [update_apply]
    split
    · decide
    · exact pre
  obtain ⟨scan, -, marking, marks, res⟩ := doMark_spec gc soft
  rw [res, markJNIClearedWeakRefs_hard, marks]
  intro object cleared
  rw [marks]
  rcases scan.cleared object cleared with earlier | ⟨zero, -⟩
  · exact unlike object earlier
  · rw [zero]
    decide

variable (cfg gc soft) in
def finaliserQueue : List Nat :=
  (queueFinalisers cfg gc (markReachable cfg soft gc)).iterateObjectList.reduceOption

variable (cfg gc soft) in
def queueMarking : Marking :=
  (finaliserQueue cfg gc soft).foldl (Marking.runMark cfg gc.heap soft) (markReachable cfg soft gc)

theorem queueMarking_le (queued : object ∈ finaliserQueue cfg gc soft) :
    (queueMarking cfg gc soft).marks object ≤ finalizerMark := by
  have complete := markReachable_complete gc soft
  have low (element : Nat) (marking : Marking) (empty : marking.stack = [])
      (scanned : marking.scanPtr = gc.heap.limit)
      (low : update marking.marks element finalizerMark object ≤ finalizerMark) :
      (marking.runMark cfg gc.heap soft element).marks object ≤ finalizerMark :=
    (Marking.runMark_spec soft empty scanned element).2.2.invariant
      (fun marks => marks object ≤ finalizerMark) (fun _ _ raise => raise.le_bound) low
  refine Marking.runMarks_brings (fun marking => marking.marks object ≤ finalizerMark) queued
    (fun marking empty scanned => low object marking empty scanned (update_self ..).le) ?_
    complete.stack complete.scanPtr
  intro other marking empty scanned pre
  refine low other marking empty scanned ?_
  rw [update_apply]
  split
  · exact le_rfl
  · exact pre

end

/-! ## A finalised object -/

def smallConfig : Config where
  platform := ⟨4, .inl rfl⟩
  referentOffset := 8
  markStackSize := 16384

def classObject (cb : ClassBlock) : Object where
  classRef := some 8
  classBlock := some cb

def instanceOf (type : Nat) : Object where
  classRef := some type

/-- The class `Class`, a class `Stream` and two streams, at the addresses 8, 24,
40 and 56. -/
def streamHeap : Heap smallConfig.platform where
  base := 4
  blocks :=
    [⟨16, some (classObject { name := "Class".toList, flags := { classClass := true } })⟩,
      ⟨16, some (classObject { name := "Stream".toList })⟩,
      ⟨16, some (instanceOf 24)⟩,
      ⟨16, some (instanceOf 24)⟩]
  valid := by
    have valid (object : Option Object) : Block.Valid smallConfig.platform ⟨16, object⟩ :=
      ⟨⟨2, rfl⟩, Nat.zero_lt_succ 15, fun _ => le_rfl⟩
    simp [valid]

/-- A thread uses the first stream; the stream in `queued` waits for its
finaliser. -/
def streamCollector (queued : Nat) : Collector smallConfig.platform where
  heap := streamHeap
  oom := none
  bootClasses := [8, 24]
  primClasses := []
  globalRefs := []
  threads := [{ thread := none, exception := none, stack := [40], frames := [] }]
  hasFinaliser := []
  runFinaliser := ObjectList.empty.addToObjectList queued
  reference := ObjectList.empty
  weakGlobalRefs := []
  clearedWeakRefs := []

theorem streamCollector_inRange (queued : Nat) : (streamCollector queued).runFinaliser.InRange :=
  (ObjectList.InRange.addToObjectList ⟨le_rfl, le_rfl⟩ queued).1

end JamVM.Alloc
