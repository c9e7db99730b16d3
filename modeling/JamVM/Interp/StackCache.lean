import JamVM.Interp.StackView

/-! # The stack cache does not change the results

Where a `long` has the size of a word, the second word of its two is not written. The
interpreters have different words there, which matters only to code that uses them.
-/

namespace JamVM.Interp

abbrev Shape := Nat → Bool

namespace Shape

def full : Shape := fun _ => true

def push (shape : Shape) (hasValue : Bool) : Shape
  | 0 => hasValue
  | depth + 1 => shape depth

def drop (shape : Shape) (count : Nat) : Shape := fun depth => shape (depth + count)

def pushLong (shape : Shape) (architecture : Architecture) : Shape :=
  (shape.push true).push (architecture ≠ .bits64)

def hasLong (shape : Shape) (architecture : Architecture) (depth : Nat) : Bool :=
  shape (depth + 1) && (shape depth || architecture = .bits64)

end Shape

namespace Body

variable {build : Build}

def usedWords : Body build → List Nat
  | store _ | unaryMinus | ifZero _ | i2l | convert _ | shiftOpLong _ => [0]
  | binaryOp _ | intdivOp _ | shiftOp _ _ | ifIcmp _ | arrayLoad _ | arrayLoadLong => [0, 1]
  | arrayStore _ | arrayStoreReference => [0, 1, 2]
  | arrayStoreLong => [2, 3]
  | _ => []

def usedLongs : Body build → List Nat
  | popLong _ | arrayStoreLong | negLong | l2i => [0]
  | shiftOpLong _ => [1]
  | binaryOpLong _ | intdivOpLong _ | lcmp => [0, 2]
  | _ => []

def reshape (shape : Shape) : Body build → Shape
  | nop | iinc _ _ => shape
  | push _ | load _ => shape.push true
  | dup => shape.push (shape 0)
  | store _ | pop1 | ifZero _ => shape.drop 1
  | pop2 | ifIcmp _ | popLong _ => shape.drop 2
  | arrayStore _ | arrayStoreReference => shape.drop 3
  | arrayStoreLong => shape.drop 4
  | unaryMinus | convert _ => (shape.drop 1).push true
  | binaryOp _ | intdivOp _ | shiftOp _ _ | arrayLoad _ | l2i => (shape.drop 2).push true
  | lcmp => (shape.drop 4).push true
  | pushLong _ | loadLong _ => shape.pushLong build.architecture
  | i2l => (shape.drop 1).pushLong build.architecture
  | arrayLoadLong | negLong => (shape.drop 2).pushLong build.architecture
  | shiftOpLong _ => (shape.drop 3).pushLong build.architecture
  | binaryOpLong _ | intdivOpLong _ => (shape.drop 4).pushLong build.architecture
  | dupX1 => (((shape.drop 2).push (shape 0)).push (shape 1)).push (shape 0)
  | dupX2 => ((((shape.drop 3).push (shape 0)).push (shape 2)).push (shape 1)).push (shape 0)
  | dup2 => (shape.push (shape 1)).push (shape 0)
  | dup2X1 =>
    (((((shape.drop 3).push (shape 1)).push (shape 0)).push (shape 2)).push (shape 1)).push
      (shape 0)
  | dup2X2 =>
    ((((((shape.drop 4).push (shape 1)).push (shape 0)).push (shape 3)).push (shape 2)).push
      (shape 1)).push (shape 0)
  | swap => ((shape.drop 2).push (shape 0)).push (shape 1)

def shapeAfter (shape : Shape) (body : Body build) : Option Shape :=
  if body.usedWords.all shape && body.usedLongs.all (shape.hasLong build.architecture) then
    some (body.reshape shape)
  else
    none

end Body

def shapeAfterAll {build : Build} (shape : Shape) : List (Body build) → Option Shape
  | [] => some shape
  | body :: rest => (body.shapeAfter shape).bind (shapeAfterAll · rest)

section
variable {build : Build} {Heap : Type u}

structure OperandView.Agree (shape : Shape) (view other : OperandView build Heap) : Prop where
  height : view.height = other.height
  word : ∀ depth, shape depth = true → view.word depth = other.word depth
  lvars : view.lvars = other.lvars
  heap : view.heap = other.heap
  branches : view.branches = other.branches

def ResultsAgree (shape : Shape) :
    Except Exception (OperandView build Heap) → Except Exception (OperandView build Heap) → Prop
  | .ok view, .ok other => view.Agree shape other
  | .error exception, .error other => exception = other
  | .ok _, .error _ | .error _, .ok _ => False

namespace OperandView.Agree

variable {shape : Shape} {view other : OperandView build Heap}

theorem push (agree : view.Agree shape other) {word : build.Word}
    (same : hasValue = true → value = word) :
    (view.push value).Agree (shape.push hasValue) (other.push word) where
  height := congrArg (· + 1) agree.height
  word
    | 0, isValue => same isValue
    | depth + 1, isValue => agree.word depth isValue
  __ := agree

theorem drop (agree : view.Agree shape other) (count : Nat) :
    (view.drop count).Agree (shape.drop count) (other.drop count) where
  height := congrArg (· - (count : Int)) agree.height
  word depth := agree.word (depth + count)
  __ := agree

theorem secondWord_eq {architecture : Architecture} (value : BitVec 64)
    (stale word : BitVec architecture.width) (isWritten : decide (architecture ≠ .bits64) = true) :
    architecture.secondWord value stale = architecture.secondWord value word := by
  cases architecture with
  | bits32 isBigEndian => cases isBigEndian <;> rfl
  | bits64 => cases isWritten

theorem pushLong (agree : view.Agree shape other) (same : value = res) (stale word : build.Word) :
    (view.pushLong value stale).Agree (shape.pushLong build.architecture)
      (other.pushLong res word) := by
  subst same
  exact (agree.push fun _ => rfl).push (secondWord_eq value stale word)

theorem readLong_wide {architecture : Architecture} (isWide : architecture = .bits64)
    (first second other : BitVec architecture.width) :
    architecture.readLong first second = architecture.readLong first other := by
  subst isWide
  rfl

section
variable (agree : view.Agree shape other)
include agree

theorem long (hasLong : shape.hasLong build.architecture depth = true) :
    view.long depth = other.long depth := by
  rw [Shape.hasLong, Bool.and_eq_true, Bool.or_eq_true, decide_eq_true_eq] at hasLong
  obtain ⟨hasFirst, hasSecond | isWide⟩ := hasLong
  · rw [OperandView.long, OperandView.long, agree.word _ hasFirst, agree.word _ hasSecond]
  · rw [OperandView.long, OperandView.long, agree.word _ hasFirst]
    exact readLong_wide isWide _ _ _

theorem setLvar (index : Nat) {word : build.Word}
    (same : value = word) : (view.setLvar index value).Agree shape (other.setLvar index word) where
  __ := agree
  lvars := by rw [OperandView.setLvar, OperandView.setLvar, agree.lvars, same]

theorem setLvarLong (index : Nat) (same : value = res) :
    (view.setLvarLong index value).Agree shape (other.setLvarLong index res) := by
  subst same
  exact (agree.setLvar index rfl).setLvar (index + 1) (by rw [agree.lvars])

theorem branch (same : taken = decision) :
    (view.branch taken).Agree shape (other.branch decision) where
  __ := agree
  branches := by rw [OperandView.branch, OperandView.branch, agree.branches, same]

theorem setHeap {heap : Heap} (same : heap = res) :
    (view.setHeap heap).Agree shape (other.setHeap res) where
  __ := agree
  heap := same

end

end OperandView.Agree

variable {shape : Shape} {view other : OperandView build Heap}

theorem throwOr_agrees (same : exception = thrown) (agree : view.Agree shape other) :
    ResultsAgree shape (throwOr exception view) (throwOr thrown other) := by
  subst same
  cases exception with
  | none => exact agree
  | some => exact rfl

attribute [simp] Body.usedWords Body.usedLongs

variable (arrays : Arrays build Heap)

theorem Body.apply_agrees {body : Body build}
    (isAfter : body.shapeAfter shape = some post) (agree : view.Agree shape other)
    (stale word : build.Word) :
    ResultsAgree post (body.apply arrays view stale) (body.apply arrays other word) := by
  rw [shapeAfter, Option.ite_none_right_eq_some, Bool.and_eq_true, List.all_eq_true,
    List.all_eq_true] at isAfter
  obtain ⟨⟨words, longs⟩, isAfter⟩ := isAfter
  obtain rfl := Option.some.inj isAfter
  have sameWord : ∀ depth ∈ body.usedWords, view.word depth = other.word depth :=
    fun depth isUsed => agree.word depth (words depth isUsed)
  have sameLong : ∀ depth ∈ body.usedLongs, view.long depth = other.long depth :=
    fun depth isUsed => agree.long (longs depth isUsed)
  clear words longs
  cases body with
  | nop => exact agree
  | push => exact agree.push fun _ => rfl
  | load index => exact agree.push fun _ => congrFun agree.lvars index
  | store index => exact (agree.drop 1).setLvar index (sameWord 0 (by simp))
  | pop1 => exact agree.drop 1
  | pop2 => exact agree.drop 2
  | dup => exact agree.push (agree.word 0)
  | unaryMinus | convert => exact (agree.drop 1).push fun _ => by rw [sameWord 0 (by simp)]
  | binaryOp =>
    exact (agree.drop 2).push fun _ => by rw [sameWord 0 (by simp), sameWord 1 (by simp)]
  | intdivOp =>
    have first := sameWord 0 (by simp)
    refine throwOr_agrees (by rw [first]) ((agree.drop 2).push fun _ => ?_)
    rw [first, sameWord 1 (by simp)]
  | shiftOp => exact (agree.drop 2).push fun _ => by rw [sameWord 0 (by simp), sameWord 1 (by simp)]
  | ifIcmp =>
    exact (agree.drop 2).branch (by
      rw [sameWord 0 (by simp), sameWord 1 (by simp)])
  | ifZero => exact (agree.drop 1).branch (by rw [sameWord 0 (by simp)])
  | iinc index => exact agree.setLvar index (by rw [agree.lvars])
  | pushLong => exact agree.pushLong rfl stale word
  | loadLong => exact agree.pushLong (by rw [OperandView.lvarLong, agree.lvars]; rfl) stale word
  | popLong index => exact (agree.drop 2).setLvarLong index (sameLong 0 (by simp))
  | arrayLoad =>
    have first := sameWord 0 (by simp)
    have second := sameWord 1 (by simp)
    refine throwOr_agrees (by rw [first, second, agree.heap]) ((agree.drop 2).push fun _ => ?_)
    rw [first, second, agree.heap]
  | arrayLoadLong =>
    have first := sameWord 0 (by simp)
    have second := sameWord 1 (by simp)
    refine throwOr_agrees (by rw [first, second, agree.heap])
      ((agree.drop 2).pushLong ?_ stale word)
    rw [first, second, agree.heap]
  | arrayStore =>
    have first := sameWord 0 (by simp)
    have second := sameWord 1 (by simp)
    have third := sameWord 2 (by simp)
    refine throwOr_agrees (by rw [second, third, agree.heap]) ((agree.drop 3).setHeap ?_)
    rw [first, second, third, agree.heap]
  | arrayStoreReference =>
    have first := sameWord 0 (by simp)
    have second := sameWord 1 (by simp)
    have third := sameWord 2 (by simp)
    refine throwOr_agrees (by rw [first, second, third, agree.heap]) ((agree.drop 3).setHeap ?_)
    rw [first, second, third, agree.heap]
  | arrayStoreLong =>
    have value := sameLong 0 (by simp)
    have index := sameWord 2 (by simp)
    have array := sameWord 3 (by simp)
    refine throwOr_agrees (by rw [index, array, agree.heap]) ((agree.drop 4).setHeap ?_)
    rw [value, index, array, agree.heap]
  | dupX1 => exact (((agree.drop 2).push (agree.word 0)).push (agree.word 1)).push (agree.word 0)
  | dupX2 =>
    exact ((((agree.drop 3).push (agree.word 0)).push (agree.word 2)).push
      (agree.word 1)).push (agree.word 0)
  | dup2 => exact (agree.push (agree.word 1)).push (agree.word 0)
  | dup2X1 =>
    exact (((((agree.drop 3).push (agree.word 1)).push (agree.word 0)).push
      (agree.word 2)).push (agree.word 1)).push (agree.word 0)
  | dup2X2 =>
    exact ((((((agree.drop 4).push (agree.word 1)).push (agree.word 0)).push
      (agree.word 3)).push (agree.word 2)).push (agree.word 1)).push (agree.word 0)
  | swap => exact ((agree.drop 2).push (agree.word 0)).push (agree.word 1)
  | binaryOpLong =>
    exact (agree.drop 4).pushLong (by
      rw [sameLong 0 (by simp), sameLong 2 (by simp)]) stale word
  | intdivOpLong =>
    have divisor := sameLong 0 (by simp)
    refine throwOr_agrees (by rw [divisor]) ((agree.drop 4).pushLong ?_ stale word)
    rw [divisor, sameLong 2 (by simp)]
  | shiftOpLong =>
    exact (agree.drop 3).pushLong (by
      rw [sameWord 0 (by simp), sameLong 1 (by simp)]) stale word
  | negLong => exact (agree.drop 2).pushLong (by rw [sameLong 0 (by simp)]) stale word
  | l2i => exact (agree.drop 2).push fun _ => by rw [sameLong 0 (by simp)]
  | i2l => exact (agree.drop 1).pushLong (by rw [sameWord 0 (by simp)]) stale word
  | lcmp => exact (agree.drop 4).push fun _ => by rw [sameLong 0 (by simp), sameLong 2 (by simp)]

/-! ## Runs -/

def cachedResult (level : Nat) (cached : Cached build Heap)
    (bodies : List (Body build)) : Except Exception (OperandView build Heap) :=
  (runCached arrays level cached bodies).map fun (final, finalLevel) => final.view finalLevel

def uncachedResult (vm : Machine build Heap)
    (bodies : List (Body build)) : Except Exception (OperandView build Heap) :=
  (runUncached arrays vm bodies).map Machine.view

theorem results_agree (isFinal : shapeAfterAll shape bodies = some final) (bound : level ≤ 2)
    (agree : (cached.view level).Agree shape vm.view) :
    ResultsAgree final (cachedResult arrays level cached bodies)
      (uncachedResult arrays vm bodies) := by
  induction bodies generalizing shape level cached vm with
  | nil =>
    obtain rfl := Option.some.inj isFinal
    exact agree
  | cons body rest ih =>
    obtain ⟨post, isAfter, isFinal⟩ := Option.bind_eq_some_iff.mp isFinal
    obtain ⟨stale, isCached⟩ := body.cached_apply arrays cached bound
    obtain ⟨word, isUncached⟩ := body.uncached_apply arrays vm
    have stepAgrees := Body.apply_agrees arrays isAfter agree stale word
    rw [← isCached, ← isUncached] at stepAgrees
    rw [cachedResult, runCached, uncachedResult, runUncached]
    cases cachedStep : body.cached arrays level cached with
    | error =>
      cases uncachedStep : body.uncached arrays vm with
      | error => rwa [cachedStep, uncachedStep] at stepAgrees
      | ok =>
        rw [cachedStep, uncachedStep] at stepAgrees
        exact stepAgrees.elim
    | ok =>
      cases uncachedStep : body.uncached arrays vm with
      | error =>
        rw [cachedStep, uncachedStep] at stepAgrees
        exact stepAgrees.elim
      | ok =>
        rw [cachedStep, uncachedStep] at stepAgrees
        refine ih isFinal ?_ stepAgrees
        rw [Body.cached_level arrays bound cachedStep]
        exact body.dispatchLevel_le level bound

/-! ## Words of 32 bits -/

namespace Shape

theorem full_drop (count : Nat) : full.drop count = full := rfl

theorem full_push : full.push true = full := by
  funext depth
  cases depth <;> rfl

theorem full_pushLong (isBigEndian : Bool) : full.pushLong (.bits32 isBigEndian) = full := by
  rw [pushLong, full_push]
  exact full_push

end Shape

theorem Body.shapeAfter_full
    (isNarrow : build.architecture = .bits32 isBigEndian) (body : Body build) :
    body.shapeAfter .full = some .full := by
  have isPlain : body.reshape .full = .full := by
    cases body <;> simp [reshape, isNarrow, Shape.full_pushLong, Shape.full_drop,
      Shape.full_push, show ∀ depth, Shape.full depth = true from fun _ => rfl]
  rw [shapeAfter, isPlain, if_pos]
  simp [Shape.full, Shape.hasLong]

theorem shapeAfterAll_full
    (isNarrow : build.architecture = .bits32 isBigEndian) (bodies : List (Body build)) :
    shapeAfterAll .full bodies = some .full := by
  induction bodies with
  | nil => rfl
  | cons body rest ih => rw [shapeAfterAll, body.shapeAfter_full isNarrow, Option.bind_some, ih]

theorem OperandView.Agree.eq (agree : view.Agree .full other) : view = other :=
  OperandView.ext agree.height (funext fun depth => agree.word depth rfl) agree.lvars agree.heap
    agree.branches

theorem ResultsAgree.eq {other : Except Exception (OperandView build Heap)}
    (agree : ResultsAgree .full res other) : res = other := by
  cases res with
  | error =>
    cases other with
    | error => exact congrArg Except.error agree
    | ok => exact agree.elim
  | ok =>
    cases other with
    | error => exact agree.elim
    | ok => exact congrArg Except.ok (OperandView.Agree.eq agree)

/-- After spilling, the interpreter with a cache has the results of the one without. With
words of 32 bits they are the same for every sequence. With words of 64 bits they are the same
up to the second words of `long` values, for every sequence that does not use such a word as a
value of its own. -/
theorem cachedResult_agrees (arrays : Arrays build Heap)
    (instructions : List (StackInstruction build)) {level : Nat} (bound : level ≤ 2)
    (cached : Cached build Heap) (vm : Machine build Heap) :
    let bodies := instructions.map StackInstruction.body
    (∀ isBigEndian, build.architecture = .bits32 isBigEndian → cached.view level = vm.view →
      cachedResult arrays level cached bodies = uncachedResult arrays vm bodies) ∧
    ∀ shape final, shapeAfterAll shape bodies = some final →
      (cached.view level).Agree shape vm.view →
      ResultsAgree final (cachedResult arrays level cached bodies)
        (uncachedResult arrays vm bodies) := by
  refine ⟨fun isBigEndian isNarrow same => ?_, fun shape final isFinal agree =>
    results_agree arrays isFinal bound agree⟩
  refine (results_agree arrays (shapeAfterAll_full isNarrow _) bound ?_).eq
  rw [same]
  exact ⟨rfl, fun _ _ => rfl, rfl, rfl, rfl⟩

end

section

def narrowBuild : Build := ⟨.bits32 false, true, false, 0x3ff0000000000000⟩

def wideBuild : Build := ⟨.bits64, true, true, 0x3ff0000000000000⟩

variable (build : Build)

def noArrays : Arrays build Unit :=
  ⟨fun _ _ => 0, fun _ _ _ _ => 0, fun _ _ _ _ _ => (), fun _ _ _ => true⟩

def noOperands : Operands build := ⟨0, 0, 0, 0, 0⟩

def sampleCached : Cached build Unit := ⟨⟨fun _ => 0, 0, fun _ => 0, (), []⟩, 3, 7⟩

def sampleMachine : Machine build Unit := ((sampleCached build).spill 1).machine

def addOne : List (StackInstruction build) :=
  [⟨.i2l, noOperands build, .i2l, rfl⟩, ⟨.lconst1, noOperands build, .pushLong 1, rfl⟩,
    ⟨.ladd, noOperands build, .binaryOpLong (· + ·), rfl⟩, ⟨.l2i, noOperands build, .l2i, rfl⟩,
    ⟨.istore0, noOperands build, .store 0, rfl⟩]

theorem cachedResult_agrees_sample :
    (cachedResult (noArrays narrowBuild) 1 (sampleCached narrowBuild)
      ((addOne narrowBuild).map StackInstruction.body) =
      uncachedResult (noArrays narrowBuild) (sampleMachine narrowBuild)
        ((addOne narrowBuild).map StackInstruction.body)) ∧
    ∃ final, ResultsAgree final (cachedResult (noArrays wideBuild) 1 (sampleCached wideBuild)
        ((addOne wideBuild).map StackInstruction.body))
      (uncachedResult (noArrays wideBuild) (sampleMachine wideBuild)
        ((addOne wideBuild).map StackInstruction.body)) := by
  constructor
  · exact (cachedResult_agrees (noArrays narrowBuild) (addOne narrowBuild) (by decide)
      (sampleCached narrowBuild) (sampleMachine narrowBuild)).1 false rfl rfl
  · exact ⟨_, (cachedResult_agrees (noArrays wideBuild) (addOne wideBuild) (by decide)
      (sampleCached wideBuild) (sampleMachine wideBuild)).2 .full _ rfl
        ⟨rfl, fun _ _ => rfl, rfl, rfl, rfl⟩⟩

def storeSecond : List (StackInstruction build) :=
  [⟨.lconst0, noOperands build, .pushLong 0, rfl⟩, ⟨.istore0, noOperands build, .store 0, rfl⟩]

/-- With words of 64 bits the second word of a `long` is an old register in one interpreter
and an old word of memory in the other. -/
theorem cachedResult_second_differs :
    (sampleCached wideBuild).view 1 = (sampleMachine wideBuild).view ∧
    ((cachedResult (noArrays wideBuild) 1 (sampleCached wideBuild)
      ((storeSecond wideBuild).map StackInstruction.body)).toOption.map fun view =>
        view.lvars 0) = some 7 ∧ ((uncachedResult (noArrays wideBuild) (sampleMachine wideBuild)
      ((storeSecond wideBuild).map StackInstruction.body)).toOption.map fun view =>
        view.lvars 0) = some 0 :=
  ⟨rfl, rfl, rfl⟩

end

end JamVM.Interp
