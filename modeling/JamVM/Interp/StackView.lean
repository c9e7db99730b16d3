import JamVM.Interp.Handlers

/-! # Handlers and the operand stack

What an opcode does to its operands, with the operand stack as a sequence of words, the top
first. The handlers of both interpreters do it.
-/

namespace JamVM.Interp

open Opcode Build
open Except (map ok)

attribute [local simp] Body.cached Cached.withMachine Machine.long

@[ext]
structure OperandView (build : Build) (Heap : Type u) where
  height : Int
  word : Nat → build.Word
  lvars : Nat → build.Word
  heap : Heap
  branches : List Bool

namespace OperandView

variable {build : Build} {Heap : Type u} (view : OperandView build Heap)

def push (value : build.Word) : OperandView build Heap :=
  { view with
    height := view.height + 1
    word := fun
      | 0 => value
      | depth + 1 => view.word depth }

def drop (count : Nat) : OperandView build Heap :=
  { view with
    height := view.height - count
    word := fun depth => view.word (depth + count) }

def long (depth : Nat) : BitVec 64 :=
  build.architecture.readLong (view.word (depth + 1)) (view.word depth)

/-- A `long` takes two words. The second one is what happened to be there if the first is
large enough. -/
def pushLong (value : BitVec 64) (stale : build.Word) : OperandView build Heap :=
  (view.push (build.architecture.firstWord value)).push (build.architecture.secondWord value stale)

def setLvar (index : Nat) (value : build.Word) : OperandView build Heap :=
  { view with lvars := Function.update view.lvars index value }

def lvarLong (index : Nat) : BitVec 64 :=
  build.architecture.readLong (view.lvars index) (view.lvars (index + 1))

def setLvarLong (index : Nat) (value : BitVec 64) : OperandView build Heap :=
  let second := build.architecture.secondWord value (view.lvars (index + 1))
  (view.setLvar index (build.architecture.firstWord value)).setLvar (index + 1) second

def branch (taken : Bool) : OperandView build Heap :=
  { view with branches := taken :: view.branches }

def setHeap (heap : Heap) : OperandView build Heap := { view with heap := heap }

variable {view}

variable (value : build.Word)

@[simp] theorem push_word_zero : (view.push value).word 0 = value := rfl
@[simp] theorem push_word_one : (view.push value).word 1 = view.word 0 := rfl
@[simp] theorem push_word_two : (view.push value).word 2 = view.word 1 := rfl
@[simp] theorem push_word_three : (view.push value).word 3 = view.word 2 := rfl

@[simp] theorem push_heap : (view.push value).heap = view.heap := rfl

theorem drop_zero : view.drop 0 = view := by
  simp [drop]

@[simp] theorem drop_drop (first second : Nat) :
    (view.drop first).drop second = view.drop (first + second) :=
  OperandView.ext
    (show view.height - first - second = view.height - (first + second : Nat) by omega)
    (funext fun depth => congrArg view.word
      (show depth + second + first = depth + (first + second) by omega)) rfl rfl rfl

theorem push_drop (count : Nat) : (view.push value).drop (count + 1) = view.drop count :=
  OperandView.ext (show view.height + 1 - (count + 1 : Nat) = view.height - count by omega)
    rfl rfl rfl rfl

@[simp] theorem push_drop_one : (view.push value).drop 1 = view :=
  (push_drop value 0).trans drop_zero
@[simp] theorem push_drop_two : (view.push value).drop 2 = view.drop 1 := push_drop value 1
@[simp] theorem push_drop_three : (view.push value).drop 3 = view.drop 2 := push_drop value 2
@[simp] theorem push_drop_four : (view.push value).drop 4 = view.drop 3 := push_drop value 3

theorem drop_push (count : Nat) : (view.drop (count + 1)).push (view.word count) =
    view.drop count := by
  refine OperandView.ext
    (show view.height - (count + 1 : Nat) + 1 = view.height - count by omega) ?_ rfl rfl rfl
  funext depth
  cases depth with
  | zero => exact congrArg view.word (Nat.zero_add count).symm
  | succ => exact congrArg view.word (by omega)

end OperandView

section
variable {build : Build} {Heap : Type u} (arrays : Arrays build Heap)

def Body.apply (view : OperandView build Heap) (stale : build.Word) :
    Body build → Except Exception (OperandView build Heap)
  | nop => .ok view
  | push value => .ok (view.push value)
  | load index => .ok (view.push (view.lvars index))
  | store index => .ok ((view.drop 1).setLvar index (view.word 0))
  | pop1 => .ok (view.drop 1)
  | pop2 => .ok (view.drop 2)
  | dup => .ok (view.push (view.word 0))
  | unaryMinus => .ok ((view.drop 1).push (ofInt (-toInt (view.word 0))))
  | binaryOp op => .ok ((view.drop 2).push (ofInt (op (toInt (view.word 1)) (toInt (view.word 0)))))
  | intdivOp op =>
    throwOr (zeroDivisorCheck (toInt (view.word 0)))
      ((view.drop 2).push (intdiv op (view.word 1) (view.word 0)))
  | shiftOp isUnsigned op =>
    .ok ((view.drop 2).push (shift isUnsigned op (view.word 1) (view.word 0)))
  | ifIcmp cond => .ok ((view.drop 2).branch (cond (toInt (view.word 1)) (toInt (view.word 0))))
  | ifZero cond => .ok ((view.drop 1).branch (cond (toInt (view.word 0))))
  | iinc index delta => .ok (view.setLvar index (view.lvars index + ofInt delta))
  | pushLong value => .ok (view.pushLong value stale)
  | loadLong index => .ok (view.pushLong (view.lvarLong index) stale)
  | popLong index => .ok ((view.drop 2).setLvarLong index (view.long 0))
  | arrayLoad type =>
    let idx := toInt (view.word 0)
    throwOr (arrays.throws view.heap (view.word 1) idx)
      ((view.drop 2).push (type.toWord (arrays.load view.heap (view.word 1) type idx)))
  | arrayLoadLong =>
    let idx := toInt (view.word 0)
    throwOr (arrays.throws view.heap (view.word 1) idx)
      ((view.drop 2).pushLong (arrays.load view.heap (view.word 1) .long idx) stale)
  | arrayStore type =>
    let val := toInt (view.word 0)
    let idx := toInt (view.word 1)
    throwOr (arrays.throws view.heap (view.word 2) idx) ((view.drop 3).setHeap
        (arrays.store view.heap (view.word 2) type idx (val.setWidth (type.bits build))))
  | arrayStoreReference =>
    let idx := toInt (view.word 1)
    throwOr (arrays.storeThrows view.heap (view.word 2) idx (view.word 0)) ((view.drop 3).setHeap
        (arrays.store view.heap (view.word 2) .reference idx (view.word 0)))
  | arrayStoreLong =>
    let idx := toInt (view.word 2)
    throwOr (arrays.throws view.heap (view.word 3) idx) ((view.drop 4).setHeap
        (arrays.store view.heap (view.word 3) .long idx (view.long 0)))
  | dupX1 => .ok ((((view.drop 2).push (view.word 0)).push (view.word 1)).push (view.word 0))
  | dupX2 =>
    .ok (((((view.drop 3).push (view.word 0)).push (view.word 2)).push (view.word 1)).push
      (view.word 0))
  | dup2 => .ok ((view.push (view.word 1)).push (view.word 0))
  | dup2X1 =>
    .ok ((((((view.drop 3).push (view.word 1)).push (view.word 0)).push (view.word 2)).push
      (view.word 1)).push (view.word 0))
  | dup2X2 =>
    .ok (((((((view.drop 4).push (view.word 1)).push (view.word 0)).push (view.word 3)).push
      (view.word 2)).push (view.word 1)).push (view.word 0))
  | swap => .ok (((view.drop 2).push (view.word 0)).push (view.word 1))
  | binaryOpLong op => .ok ((view.drop 4).pushLong (op (view.long 2) (view.long 0)) stale)
  | intdivOpLong op =>
    throwOr (zeroDivisorCheck (view.long 0))
      ((view.drop 4).pushLong (build.longdiv op (view.long 2) (view.long 0)) stale)
  | shiftOpLong op =>
    .ok ((view.drop 3).pushLong (op (view.long 1) (view.word 0 &&& 0x3f).toNat) stale)
  | negLong => .ok ((view.drop 2).pushLong (-view.long 0) stale)
  | l2i => .ok ((view.drop 2).push (ofInt ((view.long 0).setWidth 32)))
  | i2l => .ok ((view.drop 1).pushLong ((toInt (view.word 0)).signExtend 64) stale)
  | convert conversion => .ok ((view.drop 1).push (conversion (view.word 0)))
  | lcmp => .ok ((view.drop 4).push (ofInt (compareLong (view.long 2) (view.long 0))))

end

namespace Machine

variable {build : Build} {Heap : Type u} (vm : Machine build Heap)

def view : OperandView build Heap where
  height := vm.ostack
  word depth := vm.word (-1 - depth)
  lvars := vm.lvars
  heap := vm.heap
  branches := vm.branches

@[simp] theorem view_lvars : vm.view.lvars = vm.lvars := rfl
@[simp] theorem view_heap : vm.view.heap = vm.heap := rfl

@[simp] theorem view_word_zero : vm.view.word 0 = vm.word (-1) := rfl
@[simp] theorem view_word_one : vm.view.word 1 = vm.word (-2) := rfl
@[simp] theorem view_word_two : vm.view.word 2 = vm.word (-3) := rfl
@[simp] theorem view_word_three : vm.view.word 3 = vm.word (-4) := rfl

@[simp] theorem move_word (count offset : Int) :
    (vm.move count).word offset = vm.word (count + offset) := by
  rw [word, word, move, Int.add_assoc]

@[simp] theorem move_heap (count : Int) : (vm.move count).heap = vm.heap := rfl

theorem setWord_word (place offset : Int) (value : build.Word) :
    (vm.setWord place value).word offset =
      if offset = place then value else vm.word offset := by
  simp [word, setWord, Function.update_apply]

theorem view_move (count : Nat) : (vm.move (-count)).view = vm.view.drop count := by
  refine OperandView.ext rfl (funext fun depth => ?_) rfl rfl rfl
  exact (vm.move_word _ _).trans (congrArg vm.word (by omega))

theorem view_push (value : build.Word) : (vm.push value).view = vm.view.push value := by
  refine OperandView.ext rfl (funext fun depth => ?_) rfl rfl rfl
  change ((vm.setWord 0 value).move 1).word (-1 - depth) = _
  rw [move_word, setWord_word]
  cases depth with
  | zero => rfl
  | succ =>
    rw [if_neg (by omega)]
    exact congrArg vm.word (by omega)

@[simp] theorem view_move_one : (vm.move (-1)).view = vm.view.drop 1 := vm.view_move 1
@[simp] theorem view_move_two : (vm.move (-2)).view = vm.view.drop 2 := vm.view_move 2
@[simp] theorem view_move_three : (vm.move (-3)).view = vm.view.drop 3 := vm.view_move 3
@[simp] theorem view_move_four : (vm.move (-4)).view = vm.view.drop 4 := vm.view_move 4

@[simp] theorem drop_one_push : (vm.view.drop 1).push (vm.word (-1)) = vm.view :=
  (OperandView.drop_push 0).trans OperandView.drop_zero
@[simp] theorem drop_two_push : (vm.view.drop 2).push (vm.word (-2)) = vm.view.drop 1 :=
  OperandView.drop_push 1

@[simp] theorem view_setLvar (index : Nat) (value : build.Word) :
    (vm.setLvar index value).view = vm.view.setLvar index value := rfl
@[simp] theorem view_setLvarLong (index : Nat) (value : BitVec 64) :
    (vm.setLvarLong index value).view = vm.view.setLvarLong index value := rfl
@[simp] theorem view_branch (taken : Bool) : (vm.branch taken).view = vm.view.branch taken := rfl
@[simp] theorem view_setHeap (heap : Heap) : (vm.setHeap heap).view = vm.view.setHeap heap := rfl

/-! Words that are written in place are words that are pushed again. -/

theorem move_move (first second : Int) :
    (vm.move first).move second = vm.move (first + second) := by
  simp [move, Int.add_assoc]

@[simp] theorem move_zero : vm.move 0 = vm := by
  simp [move]

theorem move_setWord (count offset : Int) (value : build.Word) :
    (vm.move count).setWord offset value = (vm.setWord (count + offset) value).move count := by
  simp [move, setWord, Int.add_assoc]

theorem setWord_comm (distinct : place ≠ other) (value word : build.Word) :
    (vm.setWord place value).setWord other word = (vm.setWord other word).setWord place value := by
  simp only [setWord, Machine.mk.injEq, and_self, and_true]
  exact Function.update_comm (by omega) _ _ _

def setWords (vm : Machine build Heap) (offset : Int) : List build.Word → Machine build Heap
  | [] => vm
  | value :: values => (vm.setWord offset value).setWords (offset + 1) values

theorem view_setWords (offset : Int) (values : List build.Word) :
    ((vm.setWords offset values).move (offset + values.length)).view =
      values.foldl OperandView.push (vm.move offset).view := by
  induction values generalizing vm offset with
  | nil => rw [setWords, List.length_nil, Int.natCast_zero, Int.add_zero, List.foldl_nil]
  | cons value values ih =>
    have pushed : (vm.setWord offset value).move (offset + 1) = (vm.move offset).push value := by
      rw [push, move_setWord, move_move, Int.add_zero]
    rw [setWords, List.length_cons, List.foldl_cons, ← view_push, ← pushed, ← ih]
    congr 2
    omega

/-! The handlers with a cache first move words up and then write below them. -/

theorem view_insert_one (below above : build.Word) :
    (((vm.setWord 0 above).setWord (-1) below).move 1).view =
      ((vm.view.drop 1).push below).push above := by
  rw [setWord_comm _ (show (0 : Int) ≠ -1 by decide)]
  exact (vm.view_setWords (-1) [_, _]).trans (by simp)

theorem view_insert_two (first second third : build.Word) :
    ((((vm.setWord 0 second).setWord 1 third).setWord (-1) first).move 2).view =
      (((vm.view.drop 1).push first).push second).push third := by
  rw [setWord_comm _ (show (1 : Int) ≠ -1 by decide),
    setWord_comm _ (show (0 : Int) ≠ -1 by decide)]
  exact (vm.view_setWords (-1) [_, _, _]).trans (by simp)

theorem view_insert_pair (first second third fourth : build.Word) :
    (((((vm.setWord 0 third).setWord 1 fourth).setWord (-2) first).setWord (-1)
      second).move 2).view =
      ((((vm.view.drop 2).push first).push second).push third).push fourth := by
  rw [setWord_comm _ (show (1 : Int) ≠ -2 by decide),
    setWord_comm _ (show (0 : Int) ≠ -2 by decide),
    setWord_comm _ (show (1 : Int) ≠ -1 by decide),
    setWord_comm _ (show (0 : Int) ≠ -1 by decide)]
  exact (vm.view_setWords (-2) [_, _, _, _]).trans (by simp)

theorem view_setLong (offset : Int) (value : BitVec 64) :
    ((vm.setLong offset value).move (offset + 2)).view =
      (vm.move offset).view.pushLong value (vm.word (offset + 1)) :=
  vm.view_setWords offset [_, _]

theorem view_pushLong (value : BitVec 64) :
    (vm.pushLong value).view = vm.view.pushLong value (vm.word 1) := by
  have written := vm.view_setLong 0 value
  rwa [move_zero] at written

theorem view_setLong_top (value : BitVec 64) :
    (vm.setLong (-2) value).view = (vm.view.drop 2).pushLong value (vm.word (-1)) := by
  have written := vm.view_setLong (-2) value
  rwa [show (-2 : Int) + 2 = 0 from rfl, move_zero, view_move_two] at written

theorem view_setLong_below (value : BitVec 64) :
    (vm.setLong (-4) value).view.drop 2 = (vm.view.drop 4).pushLong value (vm.word (-3)) := by
  rw [← view_move_two, ← view_move_four]
  exact vm.view_setLong (-4) value

end Machine

section
variable {build : Build} {Heap : Type u} (arrays : Arrays build Heap)

theorem throwOr_map {α β : Type u} (exception : Option Exception) (value : α) (f : α → β) :
    (throwOr exception value).map f = throwOr exception (f value) := by
  cases exception <;> rfl

theorem Body.uncached_apply (body : Body build) (vm : Machine build Heap) :
    ∃ stale, (body.uncached arrays vm).map Machine.view = body.apply arrays vm.view stale := by
  cases body with
  | nop => exact ⟨0, rfl⟩
  | push | load | dup | unaryMinus | binaryOp | shiftOp | convert =>
    exact ⟨0, by simp [uncached, apply, map, Machine.view_push]⟩
  | store | pop1 | pop2 | ifIcmp | ifZero | iinc => exact ⟨0, by simp [uncached, apply, map]⟩
  | intdivOp | arrayLoad => exact ⟨0, by simp [uncached, apply, throwOr_map, Machine.view_push]⟩
  | pushLong => exact ⟨vm.word 1, by simp [uncached, apply, map, Machine.view_pushLong]⟩
  | loadLong =>
    exact ⟨vm.word 1, by
      simp [uncached, apply, map, Machine.view_pushLong, Machine.lvarLong, OperandView.lvarLong]⟩
  | popLong => exact ⟨0, by simp [uncached, apply, map, OperandView.long]⟩
  | arrayLoadLong =>
    refine ⟨vm.word (-1), (throwOr_map _ _ _).trans (congrArg (throwOr _) ?_)⟩
    exact (Machine.view_pushLong _ _).trans (by simp)
  | arrayStore | arrayStoreReference => exact ⟨0, by simp [uncached, apply, throwOr_map]⟩
  | arrayStoreLong => exact ⟨0, by simp [uncached, apply, throwOr_map, OperandView.long]⟩
  | dupX1 =>
    refine ⟨0, congrArg ok ?_⟩
    exact (vm.view_setWords (-2) [_, _, _]).trans (by simp)
  | dupX2 =>
    refine ⟨0, congrArg ok ?_⟩
    exact (vm.view_setWords (-3) [_, _, _, _]).trans (by simp)
  | dup2 =>
    refine ⟨0, congrArg ok ?_⟩
    exact (vm.view_setWords 0 [_, _]).trans (by simp [Machine.setWord_word])
  | dup2X1 =>
    refine ⟨0, congrArg ok ?_⟩
    exact (vm.view_setWords (-3) [_, _, _, _, _]).trans (by simp)
  | dup2X2 =>
    refine ⟨0, congrArg ok ?_⟩
    exact (vm.view_setWords (-4) [_, _, _, _, _, _]).trans (by simp)
  | swap =>
    refine ⟨0, congrArg ok ?_⟩
    rw [Machine.setWord_comm _ (by decide), ← Machine.move_zero (Machine.setWord _ _ _)]
    exact (vm.view_setWords (-2) [_, _]).trans (by simp)
  | binaryOpLong =>
    exact ⟨vm.word (-3), by
      simp [uncached, apply, map, Machine.view_setLong_below, OperandView.long]⟩
  | intdivOpLong =>
    exact ⟨vm.word (-3), by
      simp [uncached, apply, throwOr_map, Machine.view_setLong_below, OperandView.long]⟩
  | shiftOpLong =>
    exact ⟨vm.word (-2), by simp [uncached, apply, map, Machine.view_setLong_top, OperandView.long]⟩
  | negLong =>
    exact ⟨vm.word (-1), by simp [uncached, apply, map, Machine.view_setLong_top, OperandView.long]⟩
  | l2i | lcmp => exact ⟨0, by simp [uncached, apply, map, Machine.view_push, OperandView.long]⟩
  | i2l => exact ⟨vm.word 0, by simp [uncached, apply, map, Machine.view_pushLong]⟩

end

section
variable {build : Build} {Heap : Type u} (arrays : Arrays build Heap)

def Cached.view (cached : Cached build Heap) (level : Nat) : OperandView build Heap :=
  (cached.spill level).machine.view

namespace Cached

variable (cached : Cached build Heap)

@[simp] theorem view_zero : cached.view 0 = cached.machine.view := rfl

@[simp] theorem view_one : cached.view 1 = cached.machine.view.push cached.v1 :=
  cached.machine.view_push cached.v1

@[simp] theorem view_two : cached.view 2 = (cached.machine.view.push cached.v1).push cached.v2 := by
  simp only [view, spill, Machine.view_push]

theorem spill_view : ∀ level ≤ 2, (cached.spill level).view 0 = cached.view level :=
  of_levels rfl rfl rfl

theorem fill_view : ∀ level ≤ 2, (cached.fill level).view 2 = cached.view level := by
  refine of_levels ?_ ?_ rfl
  · simp [fill]
  · simp [fill]

theorem view_lvars : ∀ level ≤ 2, (cached.view level).lvars = cached.machine.lvars :=
  of_levels rfl rfl rfl

theorem push_view (value : build.Word) : ∀ level ≤ 2,
    (cached.push level value).1.view (cached.push level value).2 =
      (cached.view level).push value := by
  refine of_levels ?_ ?_ ?_
  · simp [push]
  · simp [push]
  · simp [push, Machine.view_push]

theorem push_level (value : build.Word) : ∀ level ≤ 2,
    (cached.push level value).2 = pushLevel level :=
  of_levels rfl rfl rfl

theorem top_eq : ∀ level ≤ 2, cached.top level = (cached.view level).word 0 := by
  refine of_levels rfl ?_ ?_
  · simp [top]
  · simp [top]

theorem pop_view : ∀ level ≤ 2,
    (cached.pop level).1.view (cached.pop level).2 = (cached.view level).drop 1 := by
  refine of_levels ?_ ?_ ?_
  · simp [pop]
  · simp [pop]
  · simp [pop]

theorem pop_level : ∀ level ≤ 2, (cached.pop level).2 = popLevel level := of_levels rfl rfl rfl

theorem twoOperands_eq : ∀ level ≤ 2, ∃ popped, popped.view = (cached.view level).drop 2 ∧
    cached.twoOperands level =
      ((cached.view level).word 1, (cached.view level).word 0, popped) := by
  refine of_levels ⟨cached.machine.move (-2), ?_, ?_⟩ ⟨cached.machine.move (-1), ?_, ?_⟩
    ⟨cached.machine, ?_, ?_⟩
  · simp
  · simp [twoOperands]
  · simp
  · simp [twoOperands]
  · simp
  · simp [twoOperands]

theorem setLvar_view (index : Nat) (value : build.Word) : ∀ level ≤ 2,
    (cached.withMachine (cached.machine.setLvar index value)).view level =
      (cached.view level).setLvar index value :=
  of_levels rfl rfl rfl

theorem setLong_view (value : BitVec 64) :
    (cached.setLong value).view 2 = cached.machine.view.pushLong value cached.v2 := by
  simp [setLong, OperandView.pushLong]

theorem push_zero_view (value : build.Word) :
    (cached.push 0 value).1.view (cached.push 0 value).2 = cached.machine.view.push value :=
  cached.push_view value 0 (by decide)

end Cached

def Body.Applies (body : Body build) (cached : Cached build Heap) (level : Nat) : Prop :=
  ∃ stale, (body.cached arrays level cached).map (fun res => res.1.view res.2) =
    body.apply arrays (cached.view level) stale

section
variable {cached : Cached build Heap} {level : Nat}

theorem Body.push_applies (bound : level ≤ 2) (value : build.Word) :
    (Body.push value).Applies arrays cached level :=
  ⟨0, congrArg ok (cached.push_view value level bound)⟩

theorem Body.load_applies (bound : level ≤ 2) (index : Nat) :
    (Body.load index).Applies arrays cached level := by
  refine ⟨0, congrArg ok ((cached.push_view _ level bound).trans ?_)⟩
  rw [cached.view_lvars level bound]

theorem Body.dup_applies (bound : level ≤ 2) : Body.dup.Applies arrays cached level := by
  refine ⟨0, congrArg ok ((cached.push_view _ level bound).trans ?_)⟩
  rw [cached.top_eq level bound]

theorem popLevel_le : ∀ level ≤ 2, popLevel level ≤ 2 :=
  of_levels (by decide) (by decide) (by decide)

theorem Cached.pop_level_le (cached : Cached build Heap) (bound : level ≤ 2) :
    (cached.pop level).2 ≤ 2 := by
  rw [cached.pop_level level bound]
  exact popLevel_le level bound

theorem Body.store_applies (bound : level ≤ 2) (index : Nat) :
    (Body.store index).Applies arrays cached level := by
  refine ⟨0, congrArg ok
    (((cached.pop level).1.setLvar_view _ _ _ (cached.pop_level_le bound)).trans ?_)⟩
  rw [cached.pop_view level bound, cached.top_eq level bound]

theorem Body.unaryMinus_applies (bound : level ≤ 2) :
    Body.unaryMinus.Applies arrays cached level := by
  refine ⟨0, congrArg ok
    (((cached.pop level).1.push_view _ _ (cached.pop_level_le bound)).trans ?_)⟩
  rw [cached.pop_view level bound, cached.top_eq level bound]

theorem Body.pop2_applies : ∀ level ≤ 2, Body.pop2.Applies arrays cached level := by
  refine of_levels ⟨0, ?_⟩ ⟨0, ?_⟩ ⟨0, ?_⟩
  · simp [apply, map]
  · simp [apply, map]
  · simp [apply, map]

theorem Body.ifZero_applies (cond : BitVec 32 → Bool) :
    ∀ level ≤ 2, (Body.ifZero cond).Applies arrays cached level := by
  refine of_levels ⟨0, ?_⟩ ⟨0, ?_⟩ ⟨0, ?_⟩
  · simp [apply, map, Cached.top]
  · simp [apply, map, Cached.top]
  · simp [apply, map, Cached.top, Machine.view_push]

theorem Body.iinc_applies (bound : level ≤ 2) (index : Nat) (delta : BitVec 32) :
    (Body.iinc index delta).Applies arrays cached level := by
  refine ⟨0, congrArg ok ((cached.setLvar_view _ _ level bound).trans ?_)⟩
  rw [cached.view_lvars level bound]

variable {body : Body build}

theorem Body.applies_of_fill (bound : level ≤ 2)
    (fills : body.cached arrays level cached = body.cached arrays 2 (cached.fill level))
    (applies : ∀ filled, body.Applies arrays filled 2) : body.Applies arrays cached level := by
  obtain ⟨stale, isApplied⟩ := applies (cached.fill level)
  refine ⟨stale, ?_⟩
  rw [fills, isApplied, cached.fill_view level bound]

theorem Body.applies_of_spill (bound : level ≤ 2)
    (spills : body.cached arrays level cached = body.cached arrays 0 (cached.spill level))
    (applies : ∀ spilled, body.Applies arrays spilled 0) : body.Applies arrays cached level := by
  obtain ⟨stale, isApplied⟩ := applies (cached.spill level)
  refine ⟨stale, ?_⟩
  rw [spills, isApplied, cached.spill_view level bound]

attribute [simp] throwOr_map Cached.withMachine Cached.fill Cached.long
  Cached.setLong Cached.push_zero_view OperandView.long OperandView.pushLong Machine.long
  Machine.setWord_word Machine.view_push Machine.view_insert_one Machine.view_insert_two
  Machine.view_insert_pair

theorem Body.cached_apply (body : Body build) (cached : Cached build Heap) (bound : level ≤ 2) :
    body.Applies arrays cached level := by
  cases body with
  | nop => exact applies_of_spill arrays bound rfl fun _ => ⟨0, rfl⟩
  | push value => exact push_applies arrays bound value
  | load index => exact load_applies arrays bound index
  | store index => exact store_applies arrays bound index
  | pop1 => exact ⟨0, congrArg ok (cached.pop_view level bound)⟩
  | pop2 => exact pop2_applies arrays level bound
  | dup => exact dup_applies arrays bound
  | unaryMinus => exact unaryMinus_applies arrays bound
  | binaryOp | shiftOp | ifIcmp =>
    obtain ⟨popped, isPopped, operands⟩ := cached.twoOperands_eq level bound
    refine ⟨0, ?_⟩
    simp [apply, map, operands, isPopped]
  | intdivOp =>
    obtain ⟨popped, isPopped, operands⟩ := cached.twoOperands_eq level bound
    refine ⟨0, ?_⟩
    simp [apply, operands, isPopped, cached.top_eq level bound]
  | ifZero cond => exact ifZero_applies arrays cond level bound
  | iinc index delta => exact iinc_applies arrays bound index delta
  | pushLong value =>
    refine applies_of_spill arrays bound rfl fun spilled => ⟨spilled.v2, ?_⟩
    exact congrArg ok (spilled.setLong_view value)
  | loadLong =>
    refine applies_of_spill arrays bound rfl fun spilled => ⟨spilled.v2, ?_⟩
    exact congrArg ok (spilled.setLong_view _)
  | arrayLoad | arrayStore | arrayStoreReference | arrayStoreLong =>
    refine applies_of_fill arrays bound rfl fun filled => ⟨0, ?_⟩
    simp [apply]
  | popLong | dupX1 | dup2 | dupX2 | dup2X1 | dup2X2 | swap | l2i | lcmp =>
    refine applies_of_fill arrays bound rfl fun filled => ⟨0, congrArg ok ?_⟩
    simp
  | arrayLoadLong | intdivOpLong =>
    refine applies_of_fill arrays bound rfl fun filled => ⟨filled.v2, ?_⟩
    simp [apply]
  | binaryOpLong | negLong =>
    refine applies_of_fill arrays bound rfl fun filled => ⟨filled.v2, congrArg ok ?_⟩
    simp
  | shiftOpLong =>
    refine applies_of_fill arrays bound rfl fun filled => ⟨filled.v1, congrArg ok ?_⟩
    simp
  | i2l =>
    refine applies_of_spill arrays bound rfl fun spilled => ⟨spilled.v2, congrArg ok ?_⟩
    simp [Cached.spill]
  | convert =>
    refine applies_of_spill arrays bound rfl fun spilled => ⟨0, congrArg ok ?_⟩
    simp [Cached.spill]

def Body.dispatchLevel (level : Nat) : Body build → Nat
  | push _ | load _ | dup => pushLevel level
  | store _ | pop1 => popLevel level
  | unaryMinus => replaceLevel level
  | iinc _ _ => level
  | binaryOp _ | intdivOp _ | shiftOp _ _ | arrayLoad _ | l2i | convert _ | lcmp => 1
  | nop | pop2 | ifIcmp _ | ifZero _ | popLong _ | arrayStore _ | arrayStoreReference
  | arrayStoreLong => 0
  | pushLong _ | loadLong _ | arrayLoadLong | dupX1 | dupX2 | dup2 | dup2X1 | dup2X2 | swap
  | binaryOpLong _ | intdivOpLong _ | shiftOpLong _ | negLong | i2l => 2

theorem Body.dispatchLevel_le (body : Body build) : ∀ level ≤ 2, body.dispatchLevel level ≤ 2 := by
  cases body <;>
    exact of_levels (Nat.le_of_ble_eq_true rfl) (Nat.le_of_ble_eq_true rfl)
      (Nat.le_of_ble_eq_true rfl)

theorem pushLevel_popLevel : ∀ level ≤ 2, pushLevel (popLevel level) = replaceLevel level :=
  of_levels rfl rfl rfl

theorem throwOr_eq_ok {α : Type u} {value res : α}
    (isOk : throwOr exception value = .ok res) : value = res := by
  cases exception with
  | none => exact ok.inj isOk
  | some => cases isOk

theorem Body.cached_level (bound : level ≤ 2) (isOk : body.cached arrays level cached = .ok res) :
    res.2 = body.dispatchLevel level := by
  cases body with
  | push | load | dup =>
    obtain rfl := ok.inj isOk
    exact cached.push_level _ level bound
  | store | pop1 =>
    obtain rfl := ok.inj isOk
    exact cached.pop_level level bound
  | unaryMinus =>
    obtain rfl := ok.inj isOk
    have isPushed := (cached.pop level).1.push_level
      (ofInt (-toInt (cached.top level))) _ (cached.pop_level_le bound)
    refine isPushed.trans ?_
    rw [cached.pop_level level bound]
    exact pushLevel_popLevel level bound
  | intdivOp | arrayLoad | arrayLoadLong | arrayStore | arrayStoreReference | arrayStoreLong
  | intdivOpLong =>
    obtain rfl := throwOr_eq_ok isOk
    rfl
  | _ =>
    obtain rfl := ok.inj isOk
    rfl

end

end

end JamVM.Interp
