import JamVM.Alloc.Object
import JamVM.Foundation.Transition

/-! # Scanning the Java stack

A thread's Java stack holds frames of interpreted methods, of native methods
with their JNI local references, and the dummy frames that separate the parts
run by one `executeJava`. `scanThread` walks it backwards. Addresses count words.
-/

namespace JamVM.Alloc

open Option Function

def frameWords : Nat := 5

theorem frameWords_eq : frameWords = 5 := rfl

def stackRedZoneSize : Nat := 1024

def jniDefaultLrefs : Nat := 16

def lrefListIncr : Nat := 8

structure StackMethod where
  argsCount : Nat
  maxLocals : Nat
  maxStack : Nat

/-- A `Frame` or a `JNIFrame`, whose `lrefs` is in the place of `lvars`. The last
two fields are history: the frames that are live while this one is the last, and
whether `pushJNILrefFrame` made it. -/
structure Frame where
  lvars : Nat
  ostack : Nat
  mb : Option StackMethod
  prev : Option Nat
  live : List Nat
  pushed : Bool

def Frame.maxStack (frame : Frame) : Nat := (frame.mb.map StackMethod.maxStack).getD 0

/-- The Java stack of an `ExecEnv`; `stackEnd` counts bytes. `nextRef` has the field `next_ref` of
the frames that are JNI frames. -/
structure JavaStack where
  stack : Nat
  frame : Nat → Frame
  nextRef : Nat → Option Nat
  lastFrame : Nat
  stackEnd : Nat
  overflow : Bool

def alignOstack (plat : Platform) (addr : Nat) : Nat :=
  (plat.wordSize * addr + 7) / 8 * 8 / plat.wordSize

namespace JavaStack

def last (stack : JavaStack) : Frame := stack.frame stack.lastFrame

def enter (stack : JavaStack) (addr : Nat) (frame : Frame) (nextRef : Option Nat) : JavaStack :=
  { stack with
    frame := Function.update stack.frame addr frame
    nextRef := Function.update stack.nextRef addr nextRef
    lastFrame := addr }

def initialiseJavaStack (frame : Nat → Frame) (stack methodBlockSize stackEnd : Nat) :
    JavaStack :=
  let top := stack + methodBlockSize
  enter ⟨stack, frame, fun _ => none, top, stackEnd, false⟩ top
    { lvars := top
      ostack := top + frameWords
      mb := some ⟨0, 0, 0⟩
      prev := none
      live := [top]
      pushed := false } none

def overflowed (stack : JavaStack) : Option JavaStack :=
  if stack.overflow then none
  else some { stack with overflow := true, stackEnd := stack.stackEnd + stackRedZoneSize }

def createTopFrame (plat : Platform) (stack : JavaStack) (mb : StackMethod) :
    Option JavaStack :=
  let dummy := stack.last.ostack + stack.last.maxStack
  let sp := dummy + frameWords
  let newFrame := sp + mb.maxLocals
  let newOstack := alignOstack plat (newFrame + frameWords)
  if plat.wordSize * (newOstack + mb.maxStack) > stack.stackEnd then
    stack.overflowed
  else
    some ((stack.enter dummy
        { lvars := (stack.frame dummy).lvars
          ostack := sp
          mb := none
          prev := some stack.lastFrame
          live := stack.last.live
          pushed := false } none).enter newFrame
        { lvars := sp
          ostack := newOstack
          mb := some mb
          prev := some dummy
          live := newFrame :: stack.last.live
          pushed := false } none)

def invokeMethod (plat : Platform) (stack : JavaStack) (mb : StackMethod) (arg1 : Nat) :
    Option JavaStack :=
  let newFrame := arg1 + mb.maxLocals
  let ostack := alignOstack plat (newFrame + frameWords)
  if plat.wordSize * (ostack + mb.maxStack) > stack.stackEnd then
    stack.overflowed
  else
    some (stack.enter newFrame
      { lvars := arg1
        ostack := ostack
        mb := some mb
        prev := some stack.lastFrame
        live := newFrame :: stack.last.live
        pushed := false } none)

def expandJNILrefs (plat : Platform) (stack : JavaStack) (incr : Nat) :
    Option JavaStack :=
  let newFrame := stack.lastFrame + incr
  if plat.wordSize * (newFrame + frameWords) > stack.stackEnd then
    none
  else
    some ((stack.enter stack.lastFrame ⟨0, 0, none, none, [], false⟩ none).enter newFrame
      { lvars := stack.last.lvars
        ostack := newFrame + frameWords
        mb := stack.last.mb
        prev := stack.last.prev
        live := newFrame :: stack.last.live.tail
        pushed := stack.last.pushed } (stack.nextRef stack.lastFrame))

def setNextRef (stack : JavaStack) (nextRef : Nat) : JavaStack :=
  { stack with nextRef := Function.update stack.nextRef stack.lastFrame (some nextRef) }

def argsCount (stack : JavaStack) : Nat := (stack.last.mb.map StackMethod.argsCount).getD 0

/-- The second component says that the frame was not too large. -/
def ensureJNILrefCapacity (plat : Platform) (stack : JavaStack) (cap : Nat) :
    Option (JavaStack × Bool) :=
  let size := stack.lastFrame - stack.last.lvars - stack.argsCount
  if size < cap then
    match stack.expandJNILrefs plat (max (cap - size) frameWords) with
    | some stack => some (stack, true)
    | none => stack.overflowed.map (·, false)
  else
    some (stack, true)

def initJNILrefs (plat : Platform) (stack : JavaStack) : Option JavaStack :=
  (stack.ensureJNILrefCapacity plat jniDefaultLrefs).map fun (stack, success) =>
    if success then stack.setNextRef (stack.last.lvars + stack.argsCount) else stack

def addJNILref (plat : Platform) (stack : JavaStack) : Option JavaStack := do
  let nextRef ← stack.nextRef stack.lastFrame
  if nextRef = stack.lastFrame then
    let stack ← stack.expandJNILrefs plat lrefListIncr
    some (stack.setNextRef (nextRef + 1))
  else
    some (stack.setNextRef (nextRef + 1))

def pushJNILrefFrame (plat : Platform) (stack : JavaStack) (cap : Nat) :
    Option JavaStack :=
  let newFrame := stack.lastFrame + frameWords + cap
  if plat.wordSize * (newFrame + frameWords) > stack.stackEnd then
    none
  else
    some (stack.enter newFrame
      { lvars := stack.lastFrame + frameWords
        ostack := newFrame + frameWords
        mb := stack.last.mb
        prev := stack.last.prev
        live := newFrame :: stack.last.live
        pushed := true } (some (stack.lastFrame + frameWords)))

def popJNILrefFrame (stack : JavaStack) : Option JavaStack :=
  if stack.last.pushed then some { stack with lastFrame := stack.last.lvars - frameWords }
  else none

/-- A method returns to the method that has called it, or `POP_TOP_FRAME` drops
the dummy frame too. -/
def popFrame (stack : JavaStack) : Option JavaStack :=
  stack.last.prev.bind fun prev =>
    if (stack.frame prev).mb.isSome then some { stack with lastFrame := prev }
    else (stack.frame prev).prev.map fun last => { stack with lastFrame := last }

/-! ## `scanThread` -/

def scanSlots (slot stop : Nat) : List Nat := (List.range' stop (slot + 1 - stop)).reverse

/-- The words that the walk from a frame reads. Every frame lies above its
predecessor, so the frame's address bounds the number of rounds. -/
def scanFrames (frame : Nat → Frame) : Nat → Nat → Nat → Option (List Nat)
  | 0, _, _ => none
  | fuel + 1, addr, slot =>
    match (frame addr).prev with
    | none => some []
    | some prev =>
      let stop := (frame addr).ostack
      (scanFrames frame fuel prev (stop - 1 - frameWords)).map (scanSlots slot stop ++ ·)

def scanThread (stack : JavaStack) : Option (List Nat) :=
  stack.last.mb.bind fun mb =>
    scanFrames stack.frame (stack.lastFrame + 1) stack.lastFrame (stack.last.ostack + mb.maxStack)

/-! ## Operations -/

end JavaStack

inductive StackOp
  | createTopFrame (mb : StackMethod)
  | invokeMethod (mb : StackMethod) (arg1 : Nat)
  | ensureJNILrefCapacity (cap : Nat)
  | initJNILrefs
  | addJNILref
  | pushJNILrefFrame (cap : Nat)
  | popJNILrefFrame
  | popFrame
  | recover

namespace JavaStack

def step (plat : Platform) (stack : JavaStack) : StackOp → Option JavaStack
  | .createTopFrame mb => stack.createTopFrame plat mb
  | .invokeMethod mb arg1 =>
    if stack.last.prev.isSome ∧ stack.last.ostack ≤ arg1 then
      stack.invokeMethod plat mb arg1
    else
      none
  | .ensureJNILrefCapacity cap => (stack.ensureJNILrefCapacity plat cap).map Prod.fst
  | .initJNILrefs => stack.initJNILrefs plat
  | .addJNILref => stack.addJNILref plat
  | .pushJNILrefFrame cap => stack.pushJNILrefFrame plat cap
  | .popJNILrefFrame => stack.popJNILrefFrame
  | .popFrame => stack.popFrame
  | .recover =>
    if stack.overflow then
      some { stack with overflow := false, stackEnd := stack.stackEnd - stackRedZoneSize }
    else
      none

def system (plat : Platform) : TransitionSystem JavaStack StackOp where
  initial stack := ∃ frame start methodBlockSize stackEnd,
    stack = initialiseJavaStack frame start methodBlockSize stackEnd
  step := step plat

/-- The words of live frames, the newest one first: local variables, which end where
the frame begins, or JNI local references, which end at `next_ref`, and operand stacks.
The operand stack of an older frame ends at the latest where the next frame begins. -/
def LiveWord (frame : Nat → Frame) (refs : Nat → Option Nat) (word : Nat) : List Nat → Prop
  | [] => False
  | addr :: older =>
    (frame addr).lvars ≤ word ∧ word < addr ∧ (∀ next ∈ refs addr, word < next) ∨
      (frame addr).ostack ≤ word ∧ word < (frame addr).ostack + (frame addr).maxStack ∨
      word < addr ∧ LiveWord frame refs word older

instance (frame : Nat → Frame) (refs : Nat → Option Nat) (word : Nat) (live : List Nat) :
    Decidable (LiveWord frame refs word live) :=
  match live with
  | [] => isFalse id
  | _ :: older =>
    have : Decidable (LiveWord frame refs word older) :=
      instDecidableLiveWord frame refs word older
    inferInstanceAs (Decidable (_ ∨ _ ∨ _))

/-! ## Stacks as they are built -/

section
variable {frame changed : Nat → Frame} {refs : Nat → Option Nat} {stack : Nat}

inductive Built (stack : Nat) (frame : Nat → Frame) : Nat → Prop
  | outermost {top : Nat} (low : stack ≤ top) (prev : (frame top).prev = none)
      (method : (frame top).mb.isSome) (lvars : (frame top).lvars = top)
      (ostack : (frame top).ostack = top + frameWords) (empty : (frame top).maxStack = 0)
      (live : (frame top).live = [top]) (pushed : (frame top).pushed = false) :
      Built stack frame top
  | dummy {addr last : Nat} (below : Built stack frame last)
      (lastMethod : (frame last).mb.isSome) (prev : (frame addr).prev = some last)
      (isDummy : (frame addr).mb = none)
      (above : (frame last).ostack + (frame last).maxStack ≤ addr)
      (ostack : (frame addr).ostack = addr + frameWords)
      (live : (frame addr).live = (frame last).live) : Built stack frame addr
  | method {addr caller : Nat} (below : Built stack frame caller)
      (inner : (frame caller).prev.isSome) (prev : (frame addr).prev = some caller)
      (method : (frame addr).mb.isSome) (above : (frame caller).ostack ≤ (frame addr).lvars)
      (lvars : (frame addr).lvars ≤ addr)
      (ostack : addr + frameWords ≤ (frame addr).ostack)
      (live : (frame addr).live = addr :: (frame caller).live)
      (pushed : (frame addr).pushed = false) : Built stack frame addr
  | pushed {addr under : Nat} (below : Built stack frame under)
      (inner : (frame under).prev.isSome) (prev : (frame addr).prev = (frame under).prev)
      (underMethod : (frame under).mb.isSome) (method : (frame addr).mb.isSome)
      (above : (frame addr).lvars = under + frameWords)
      (lvars : (frame addr).lvars ≤ addr)
      (ostack : (frame addr).ostack = addr + frameWords)
      (live : (frame addr).live = addr :: (frame under).live) : Built stack frame addr

variable {addr slot word : Nat}

theorem Built.ostack_ge (built : Built stack frame addr) :
    addr + frameWords ≤ (frame addr).ostack := by
  cases built <;> omega

theorem Built.low (built : Built stack frame addr) : stack ≤ addr := by
  induction built with
  | outermost low => exact low
  | dummy below | method below => have := below.ostack_ge; omega
  | pushed => omega

theorem Built.congr (built : Built stack frame addr)
    (same : ∀ other ≤ addr, changed other = frame other) : Built stack changed addr := by
  induction built with
  | outermost low => apply Built.outermost low <;> simpa only [same _ le_rfl]
  | @dummy addr last below _ _ _ above _ _ ih =>
    have low := below.ostack_ge
    have lower := same last (by omega)
    apply Built.dummy (ih fun other less => same other (by omega)) <;>
      simpa only [same _ le_rfl, lower]
  | @method addr caller below _ _ _ above lvars _ _ _ ih =>
    have low := below.ostack_ge
    have lower := same caller (by omega)
    apply Built.method (ih fun other less => same other (by omega)) <;>
      simpa only [same _ le_rfl, lower]
  | @pushed addr under below _ _ _ _ above lvars _ _ ih =>
    have lower := same under (by omega)
    apply Built.pushed (ih fun other less => same other (by omega)) <;>
      simpa only [same _ le_rfl, lower]

/-! ## The walk -/

theorem mem_scanSlots : word ∈ scanSlots slot stop ↔ stop ≤ word ∧ word ≤ slot := by
  simp only [scanSlots, List.mem_reverse, List.mem_range'_1]
  omega

def Walks (stack : Nat) (frame : Nat → Frame) (addr slot : Nat) (words : Nat → Prop) : Prop :=
  ∀ fuel, addr < fuel → ∃ visited, scanFrames frame fuel addr slot = some visited ∧
    (∀ word ≤ slot, words word → word ∈ visited) ∧ ∀ word ∈ visited, stack ≤ word ∧ word ≤ slot

theorem Walks.mono (walks : Walks stack frame addr slot words)
    (less : ∀ word ≤ slot, fewer word → words word) : Walks stack frame addr slot fewer := by
  intro fuel enough
  obtain ⟨visited, walked, all, within⟩ := walks fuel enough
  exact ⟨visited, walked, fun word low needed => all word low (less word low needed), within⟩

theorem Walks.outermost (prev : (frame addr).prev = none) (slot : Nat) :
    Walks stack frame addr slot fun _ => False := by
  intro fuel enough
  obtain ⟨fuel, rfl⟩ := Nat.exists_eq_succ_of_ne_zero (Nat.ne_zero_of_lt enough)
  exact ⟨[], by simp [scanFrames, prev], by simp, by simp⟩

theorem Walks.round (isPrev : (frame addr).prev = some prev) (less : prev < addr)
    (low : stack ≤ (frame addr).ostack) (high : (frame addr).ostack ≤ slot + 1)
    (walks : Walks stack frame prev ((frame addr).ostack - 1 - frameWords) words) :
    Walks stack frame addr slot fun word => (frame addr).ostack ≤ word ∨
      word ≤ (frame addr).ostack - 1 - frameWords ∧ words word := by
  intro fuel enough
  obtain ⟨fuel, rfl⟩ := Nat.exists_eq_succ_of_ne_zero (Nat.ne_zero_of_lt enough)
  obtain ⟨visited, walked, all, within⟩ := walks fuel (by omega)
  refine ⟨scanSlots slot (frame addr).ostack ++ visited, ?_, ?_, ?_⟩
  · simp [scanFrames, isPrev, walked]
  · rintro word lower (inside | ⟨below, needed⟩)
    · exact List.mem_append_left _ (mem_scanSlots.mpr ⟨inside, lower⟩)
    · exact List.mem_append_right _ (all word below needed)
  · intro word mem
    rcases List.mem_append.mp mem with inside | below
    · have := mem_scanSlots.mp inside
      omega
    · have := within word below
      omega

theorem LiveWord.operand_or_below (live : LiveWord frame refs word (addr :: older)) :
    (frame addr).ostack ≤ word ∧ word < (frame addr).ostack + (frame addr).maxStack ∨
      word < addr ∧ ((frame addr).lvars ≤ word ∨ LiveWord frame refs word older) := by
  rcases live with local' | operand | older
  · exact .inr ⟨local'.2.1, .inl local'.1⟩
  · exact .inl operand
  · exact .inr ⟨older.1, .inr older.2⟩

section
variable (built : Built stack frame addr)
include built

theorem Built.live_eq
    (method : (frame addr).mb.isSome) : ∃ older, (frame addr).live = addr :: older := by
  cases built with
  | dummy _ _ _ isDummy => simp [isDummy] at method
  | outermost _ _ _ _ _ _ live | method _ _ _ _ _ _ _ live | pushed _ _ _ _ _ _ _ _ live =>
    exact ⟨_, live⟩

theorem Built.lvars_le (method : (frame addr).mb.isSome) : (frame addr).lvars ≤ addr := by
  cases built with
  | outermost _ _ _ lvars => exact lvars.le
  | dummy _ _ _ isDummy => simp [isDummy] at method
  | method _ _ _ _ _ lvars | pushed _ _ _ _ _ _ lvars => exact lvars

theorem Built.not_live
    (outer : (frame addr).prev = none) : ¬ LiveWord frame refs word (frame addr).live := by
  intro isLive
  cases built with
  | outermost _ _ _ lvars _ empty live =>
    rw [live] at isLive
    rcases isLive.operand_or_below with operand | ⟨less, up | none⟩
    · omega
    · omega
    · exact none
  | dummy _ _ prev | method _ _ prev => simp [prev] at outer
  | pushed _ inner prev => simp [← prev, outer] at inner

theorem Built.live_lt (method : (frame addr).mb.isSome)
    (isLive : LiveWord frame refs word (frame addr).live) :
    word < (frame addr).ostack + (frame addr).maxStack := by
  have above := built.ostack_ge
  obtain ⟨older, live⟩ := built.live_eq method
  rcases LiveWord.operand_or_below (live ▸ isLive) with operand | lower <;> omega

end

theorem Built.prev (built : Built stack frame addr)
    (isPrev : (frame addr).prev = some caller) : Built stack frame caller := by
  induction built with
  | outermost _ prev => simp [prev] at isPrev
  | dummy below _ prev | method below _ prev => exact some.inj (prev.symm.trans isPrev) ▸ below
  | pushed _ _ prev _ _ _ _ _ _ ih => exact ih (prev.symm.trans isPrev)

def WalksBelow (stack : Nat) (frame : Nat → Frame) (refs : Nat → Option Nat) (addr : Nat) : Prop :=
  ∃ caller, (frame addr).prev = some caller ∧ caller < addr ∧
    ∀ slot, addr ≤ slot + 1 → Walks stack frame caller slot fun word =>
      (frame addr).lvars ≤ word ∨ word < addr ∧ LiveWord frame refs word (frame addr).live

theorem WalksBelow.walks (below : WalksBelow stack frame refs addr)
    (built : Built stack frame addr) (method : (frame addr).mb.isSome)
    (high : (frame addr).ostack ≤ slot + 1) :
    Walks stack frame addr slot fun word =>
      (frame addr).ostack ≤ word ∨ LiveWord frame refs word (frame addr).live := by
  obtain ⟨caller, prev, less, walks⟩ := below
  obtain ⟨older, live⟩ := built.live_eq method
  have above := built.ostack_ge
  have low := built.low
  refine (Walks.round prev less (by omega) high (walks _ (by omega))).mono ?_
  rintro word - (operand | isLive)
  · exact .inl operand
  · rcases LiveWord.operand_or_below (live ▸ isLive) with operand | ⟨lower, -⟩
    · exact .inl operand.1
    · exact .inr ⟨by omega, .inr ⟨lower, isLive⟩⟩

theorem Built.walks (built : Built stack frame addr) (inner : (frame addr).prev.isSome) :
    (∀ slot, (frame addr).ostack ≤ slot + 1 → Walks stack frame addr slot fun word =>
      (frame addr).ostack ≤ word ∨ LiveWord frame refs word (frame addr).live) ∧
    ((frame addr).mb.isSome → WalksBelow stack frame refs addr) := by
  induction built with
  | outermost _ prev => simp [prev] at inner
  | @dummy addr last below lastMethod prev isDummy above ostack live ih =>
    refine ⟨fun slot high => ?_, fun method => by simp [isDummy] at method⟩
    have words := frameWords_eq
    have lower := below.ostack_ge
    have low := below.low
    cases outer : (frame last).prev with
    | none =>
      -- The walk stops at the outermost frame.
      refine (Walks.round prev (by omega) (by omega) high (Walks.outermost outer _)).mono ?_
      rintro word - (operand | isLive)
      · exact .inl operand
      · exact absurd (live ▸ isLive) (below.not_live outer)
    | some =>
      have walks := (ih (by simp [outer])).1
      refine (Walks.round prev (by omega) (by omega) high (walks _ (by omega))).mono ?_
      rintro word - (operand | isLive)
      · exact .inl operand
      · rw [live] at isLive
        have inside := below.live_lt lastMethod isLive
        exact .inr ⟨by omega, .inr isLive⟩
  | @method addr caller below isInner prev method above lvars ostack live pushed ih =>
    have built : Built stack frame addr :=
      .method below isInner prev method above lvars ostack live pushed
    have words := frameWords_eq
    have lower := below.ostack_ge
    have walksBelow : WalksBelow stack frame refs addr := by
      refine ⟨caller, prev, by omega, fun slot high => ?_⟩
      refine ((ih isInner).1 slot (by omega)).mono ?_
      rintro word - (up | ⟨less, isLive⟩)
      · exact .inl (above.trans up)
      · rcases LiveWord.operand_or_below (live ▸ isLive) with operand | ⟨-, up | older⟩
        · omega
        · exact .inl (above.trans up)
        · exact .inr older
    exact ⟨fun slot => walksBelow.walks built method, fun _ => walksBelow⟩
  | @pushed addr under below isInner prev underMethod method above lvars ostack live ih =>
    have built : Built stack frame addr :=
      .pushed below isInner prev underMethod method above lvars ostack live
    have walksBelow : WalksBelow stack frame refs addr := by
      obtain ⟨caller, isPrev, less, walks⟩ := (ih isInner).2 underMethod
      have lower := below.lvars_le underMethod
      have operands := below.ostack_ge
      obtain ⟨older, underLive⟩ := below.live_eq underMethod
      refine ⟨caller, prev.trans isPrev, by omega, fun slot high => ?_⟩
      refine (walks slot (by omega)).mono ?_
      rintro word - (up | ⟨less, isLive⟩)
      · exact .inl (by omega)
      · rcases LiveWord.operand_or_below (live ▸ isLive) with operand | ⟨-, up | isOlder⟩
        · omega
        · exact .inl (by omega)
        · rcases LiveWord.operand_or_below (underLive ▸ isOlder) with operand | ⟨down, -⟩
          · exact .inl (by omega)
          · exact .inr ⟨down, isOlder⟩
    exact ⟨fun slot => walksBelow.walks built method, fun _ => walksBelow⟩

/-! ## Frames that are entered -/

theorem alignOstack_ge (plat : Platform) (addr : Nat) : addr ≤ alignOstack plat addr := by
  rcases plat.isWord with word | word <;> simp only [alignOstack, word] <;> omega

variable {addr below : Nat} {new : Frame}

section
variable (built : Built stack frame below)
include built

theorem Built.update (less : below < addr) : Built stack (Function.update frame addr new) below :=
  built.congr fun other le => update_of_ne (by omega) ..

theorem Built.enterDummy (method : (frame below).mb.isSome)
    (prev : new.prev = some below) (isDummy : new.mb = none)
    (above : (frame below).ostack + (frame below).maxStack ≤ addr)
    (ostack : new.ostack = addr + frameWords) (live : new.live = (frame below).live) :
    Built stack (Function.update frame addr new) addr := by
  have lower := built.ostack_ge
  have less : below < addr := by
    have words := frameWords_eq
    omega
  apply Built.dummy (built.update less) <;>
    simpa only [update_of_ne less.ne, update_self]

theorem Built.enterMethod (inner : (frame below).prev.isSome) (prev : new.prev = some below)
    (method : new.mb.isSome) (above : (frame below).ostack ≤ new.lvars) (lvars : new.lvars ≤ addr)
    (ostack : addr + frameWords ≤ new.ostack) (live : new.live = addr :: (frame below).live)
    (pushed : new.pushed = false) :
    Built stack (Function.update frame addr new) addr := by
  have lower := built.ostack_ge
  have less : below < addr := by
    have words := frameWords_eq
    omega
  apply Built.method (built.update less) <;>
    simpa only [update_of_ne less.ne, update_self]

theorem Built.enterPushed (inner : (frame below).prev.isSome) (prev : new.prev = (frame below).prev)
    (belowMethod : (frame below).mb.isSome) (method : new.mb.isSome)
    (above : new.lvars = below + frameWords) (lvars : new.lvars ≤ addr)
    (ostack : new.ostack = addr + frameWords)
    (live : new.live = addr :: (frame below).live) :
    Built stack (Function.update frame addr new) addr := by
  have less : below < addr := by
    have words := frameWords_eq
    omega
  apply Built.pushed (built.update less) <;>
    simpa only [update_of_ne less.ne, update_self]

end

end

structure Sound (stack : JavaStack) : Prop where
  built : Built stack.stack stack.frame stack.lastFrame
  method : stack.last.mb.isSome

variable {plat : Platform} {stack next : JavaStack}

theorem last_enter (stack : JavaStack) (addr : Nat) (frame : Frame) (nextRef : Option Nat) :
    (stack.enter addr frame nextRef).last = frame := by
  simp [last, enter]

theorem Sound.initial (frame : Nat → Frame) (start methodBlockSize stackEnd : Nat) :
    Sound (initialiseJavaStack frame start methodBlockSize stackEnd) := by
  refine ⟨.outermost (Nat.le_add_right ..) ?_ ?_ ?_ ?_ ?_ ?_ ?_, ?_⟩ <;>
    simp [initialiseJavaStack, enter, last, Frame.maxStack]

section
variable (sound : Sound stack)
include sound

theorem Sound.overflowed (ran : stack.overflowed = some next) : Sound next := by
  unfold JavaStack.overflowed at ran
  split at ran <;> cases ran
  exact ⟨sound.built, sound.method⟩

theorem Sound.createTopFrame (ran : stack.createTopFrame plat mb = some next) : Sound next := by
  simp only [JavaStack.createTopFrame] at ran
  split at ran
  · exact sound.overflowed ran
  · cases ran
    refine ⟨?_, by rw [last_enter]; rfl⟩
    apply (sound.built.enterDummy sound.method _ _ le_rfl _ _).enterMethod <;>
      simp [last, alignOstack_ge]

theorem Sound.invokeMethod (inner : stack.last.prev.isSome) (onStack : stack.last.ostack ≤ arg1)
    (ran : stack.invokeMethod plat mb arg1 = some next) : Sound next := by
  simp only [JavaStack.invokeMethod] at ran
  split at ran
  · exact sound.overflowed ran
  · cases ran
    exact ⟨sound.built.enterMethod inner rfl rfl onStack (Nat.le_add_right ..)
      (alignOstack_ge ..) rfl rfl, by rw [last_enter]; rfl⟩

theorem Sound.expandJNILrefs (inner : stack.last.prev.isSome)
    (ran : stack.expandJNILrefs plat incr = some next) : Sound next := by
  have words := frameWords_eq
  simp only [JavaStack.expandJNILrefs] at ran
  split at ran <;> cases ran
  have method := sound.method
  refine ⟨?_, by rwa [last_enter]⟩
  unfold last at inner method
  cases sound.built with
  | outermost _ prev => simp [prev] at inner
  | dummy _ _ _ isDummy => simp [isDummy] at method
  | @method _ caller below isInner prev _ above lvars _ live pushed =>
    have less : caller < stack.lastFrame := by
      have lower := below.ostack_ge
      omega
    apply (below.update less).enterMethod <;>
      simp only [last, live, List.tail_cons, update_of_ne less.ne]
    · exact isInner
    · exact prev
    · exact method
    · exact above
    · exact lvars.trans (Nat.le_add_right ..)
    · exact le_rfl
    · exact pushed
  | @pushed _ under below isInner prev underMethod _ above lvars _ live =>
    have less : under < stack.lastFrame := by omega
    apply (below.update less).enterPushed <;>
      simp only [last, live, List.tail_cons, update_of_ne less.ne]
    · exact isInner
    · exact prev
    · exact underMethod
    · exact method
    · exact above
    · exact lvars.trans (Nat.le_add_right ..)

omit sound in
theorem Sound.setNextRef (sound : Sound stack) (nextRef : Nat) : Sound (stack.setNextRef nextRef) :=
  ⟨sound.built, sound.method⟩

theorem Sound.ensureJNILrefCapacity (inner : stack.last.prev.isSome)
    (ran : stack.ensureJNILrefCapacity plat cap = some (next, success)) : Sound next := by
  simp only [JavaStack.ensureJNILrefCapacity] at ran
  split at ran
  · split at ran
    · rename_i expanded
      cases ran
      exact sound.expandJNILrefs inner expanded
    · obtain ⟨_, overflowed, ⟨⟩⟩ := map_eq_some_iff.mp ran
      exact sound.overflowed overflowed
  · cases ran
    exact sound

theorem Sound.initJNILrefs (inner : stack.last.prev.isSome)
    (ran : stack.initJNILrefs plat = some next) : Sound next := by
  obtain ⟨⟨middle, success⟩, ensured, rfl⟩ := map_eq_some_iff.mp ran
  have kept := sound.ensureJNILrefCapacity inner ensured
  dsimp only
  split
  · exact kept.setNextRef _
  · exact kept

theorem Sound.addJNILref (inner : stack.last.prev.isSome)
    (ran : stack.addJNILref plat = some next) : Sound next := by
  obtain ⟨nextRef, -, ran⟩ := bind_eq_some_iff.mp ran
  split at ran
  · obtain ⟨middle, expanded, ⟨⟩⟩ := bind_eq_some_iff.mp ran
    exact (sound.expandJNILrefs inner expanded).setNextRef _
  · cases ran
    exact sound.setNextRef _

theorem Sound.pushJNILrefFrame (inner : stack.last.prev.isSome)
    (ran : stack.pushJNILrefFrame plat cap = some next) : Sound next := by
  simp only [JavaStack.pushJNILrefFrame] at ran
  split at ran <;> cases ran
  exact ⟨sound.built.enterPushed inner rfl sound.method sound.method rfl (Nat.le_add_right ..)
    rfl rfl, by rw [last_enter]; exact sound.method⟩

theorem Sound.popJNILrefFrame (ran : stack.popJNILrefFrame = some next) : Sound next := by
  unfold JavaStack.popJNILrefFrame at ran
  split at ran <;> cases ran
  rename_i isPushed
  have method := sound.method
  unfold last at isPushed method
  cases sound.built with
  | dummy _ _ _ isDummy => simp [isDummy] at method
  | outermost _ _ _ _ _ _ _ pushed | method _ _ _ _ _ _ _ _ pushed => simp [pushed] at isPushed
  | pushed below _ _ underMethod _ above =>
    rw [last, above, Nat.add_sub_cancel]
    exact ⟨below, underMethod⟩

theorem Sound.popFrame (ran : stack.popFrame = some next) : Sound next := by
  obtain ⟨prev, isPrev, popped⟩ := bind_eq_some_iff.mp ran
  have caller := sound.built.prev isPrev
  split at popped
  · cases popped
    exact ⟨caller, by assumption⟩
  · obtain ⟨last, isLast, rfl⟩ := map_eq_some_iff.mp popped
    refine ⟨caller.prev isLast, ?_⟩
    cases caller with
    | outermost | method | pushed => contradiction
    | dummy _ lastMethod isPrev => exact some.inj (isPrev.symm.trans isLast) ▸ lastMethod

end

/-- JNI local references are created in the frames of native methods only, not in
the first frame of a thread. -/
def Inner (stack : JavaStack) : StackOp → Prop
  | .ensureJNILrefCapacity _ | .initJNILrefs | .addJNILref | .pushJNILrefFrame _ =>
    stack.last.prev.isSome
  | _ => True

instance (stack : JavaStack) (op : StackOp) : Decidable (stack.Inner op) := by
  unfold Inner
  cases op <;> infer_instance

theorem Sound.step (sound : Sound stack) (inner : stack.Inner op)
    (ran : stack.step plat op = some next) : Sound next := by
  cases op with
  | createTopFrame => exact sound.createTopFrame ran
  | invokeMethod =>
    simp only [JavaStack.step] at ran
    split at ran
    · rename_i onStack
      exact sound.invokeMethod onStack.1 onStack.2 ran
    · cases ran
  | ensureJNILrefCapacity =>
    obtain ⟨⟨_, success⟩, ensured, rfl⟩ := map_eq_some_iff.mp ran
    exact sound.ensureJNILrefCapacity inner ensured
  | initJNILrefs => exact sound.initJNILrefs inner ran
  | addJNILref => exact sound.addJNILref inner ran
  | pushJNILrefFrame => exact sound.pushJNILrefFrame inner ran
  | popJNILrefFrame => exact sound.popJNILrefFrame ran
  | popFrame => exact sound.popFrame ran
  | recover =>
    simp only [JavaStack.step, ite_none_right_eq_some, some.injEq] at ran
    obtain ⟨-, rfl⟩ := ran
    exact ⟨sound.built, show (stack.frame stack.lastFrame).mb.isSome from sound.method⟩

def stop (stack : JavaStack) : Nat := stack.last.ostack + stack.last.maxStack

/-- The walk reads every live word, and none outside of the part of the stack that is in use. -/
def Covered (stack : JavaStack) : Prop :=
  ∃ visited, stack.scanThread = some visited ∧
    (∀ word, LiveWord stack.frame stack.nextRef word stack.last.live → word ∈ visited) ∧
    ∀ word ∈ visited, stack.stack ≤ word ∧ word < stack.stop

theorem scanThread_sound (sound : Sound stack) : ∃ visited, stack.scanThread = some visited ∧
    (∀ word, LiveWord stack.frame stack.nextRef word stack.last.live → word ∈ visited) ∧
    ∀ word ∈ visited, stack.stack ≤ word ∧ word ≤ stack.stop := by
  have below (word : Nat) (live : LiveWord stack.frame stack.nextRef word stack.last.live) :
      word ≤ stack.stop := (sound.built.live_lt sound.method live).le
  obtain ⟨mb, isMb⟩ := isSome_iff_exists.mp sound.method
  have isStop : stack.last.ostack + mb.maxStack = stack.stop := by simp [stop, Frame.maxStack, isMb]
  rw [scanThread, isMb, bind_some, isStop]
  suffices walks : Walks stack.stack stack.frame stack.lastFrame stack.stop
      fun word => LiveWord stack.frame stack.nextRef word stack.last.live by
    obtain ⟨visited, walked, all, within⟩ := walks _ (Nat.lt_succ_self _)
    exact ⟨visited, walked, fun word live => all word (below word live) live, within⟩
  cases outer : (stack.frame stack.lastFrame).prev with
  | none => exact (Walks.outermost outer _).mono fun word _ live => sound.built.not_live outer live
  | some =>
    have walks := (@Built.walks _ stack.nextRef _ _ sound.built (by simp [outer])).1
    exact (walks stack.stop (by rw [stop, last]; omega)).mono fun word _ => .inr

theorem scanThread_outer (mb : stack.last.mb.isSome) (outer : stack.last.prev = none) :
    stack.scanThread = some [] := by
  obtain ⟨mb, isMb⟩ := isSome_iff_exists.mp mb
  simp [scanThread, isMb, scanFrames, show (stack.frame stack.lastFrame).prev = none from outer]

theorem stop_mem_scanThread (inner : stack.last.prev ≠ none)
    (walked : stack.scanThread = some visited) : stack.stop ∈ visited := by
  obtain ⟨mb, isMb, walked⟩ := bind_eq_some_iff.mp walked
  obtain ⟨prev, isPrev⟩ := ne_none_iff_exists'.mp inner
  have isStop : stack.last.ostack + mb.maxStack = stack.stop := by simp [stop, Frame.maxStack, isMb]
  simp only [scanFrames, show (stack.frame stack.lastFrame).prev = some prev from isPrev,
    isStop] at walked
  obtain ⟨rest, -, rfl⟩ := map_eq_some_iff.mp walked
  exact List.mem_append_left _ (mem_scanSlots.mpr ⟨Nat.le_add_right .., le_rfl⟩)

/-- A thread that has left its first frame is never covered: the walk reads the word behind its
last operand stack. It reads every live word, and no other word that is not in use, as
long as no local references are made in the first frame. -/
theorem scanThread_covers (plat : Platform) (stack : JavaStack) :
    (stack.Covered ↔ stack.last.mb.isSome ∧ stack.last.prev = none ∧
      ∀ word, ¬ LiveWord stack.frame stack.nextRef word stack.last.live) ∧
    ((system plat).ReachableWhile Inner stack → ∃ visited, stack.scanThread = some visited ∧
      (∀ word, LiveWord stack.frame stack.nextRef word stack.last.live → word ∈ visited) ∧
      ∀ word ∈ visited, stack.stack ≤ word ∧ word ≤ stack.stop) := by
  refine ⟨⟨?_, ?_⟩, fun reachable => scanThread_sound ?_⟩
  · rintro ⟨visited, walked, all, within⟩
    have mb : stack.last.mb.isSome := by
      obtain ⟨mb, isMb, -⟩ := bind_eq_some_iff.mp walked
      simp [isMb]
    have outer : stack.last.prev = none := by
      by_contra inner
      have := (within _ (stop_mem_scanThread inner walked)).2
      omega
    obtain rfl : visited = [] := by simpa [scanThread_outer mb outer, eq_comm] using walked
    exact ⟨mb, outer, fun word live => by simpa using all word live⟩
  · rintro ⟨mb, outer, noLive⟩
    exact ⟨[], scanThread_outer mb outer, fun word live => (noLive word live).elim, by simp⟩
  · refine reachable.invariant Sound ?_ fun _ _ _ sound inner ran => sound.step inner ran
    rintro _ ⟨frame, start, methodBlockSize, stackEnd, rfl⟩
    exact .initial frame start methodBlockSize stackEnd

def small (stackEnd : Nat) : JavaStack :=
  initialiseJavaStack (fun _ => ⟨0, 0, none, none, [], false⟩) 0 8 stackEnd

/-- A native method with a local reference, called by a method that pads its operand stack. -/
theorem scanThread_covers_native : ∃ stack : JavaStack,
    (∃ visited, stack.scanThread = some visited ∧ 26 ∈ visited) ∧ ¬ stack.Covered := by
  have ran : ((system ⟨4, .inl rfl⟩).runWhile Inner (small 400)
      [.createTopFrame ⟨0, 1, 2⟩, .invokeMethod ⟨2, 2, 0⟩ 24, .initJNILrefs, .addJNILref]).any
        (fun stack => decide (LiveWord stack.frame stack.nextRef 26 stack.last.live ∧
          stack.last.prev ≠ none)) = true := by decide +kernel
  obtain ⟨stack, reachable, live, inner⟩ :=
    TransitionSystem.ReachableWhile.of_any _ _ (.initial (by exact ⟨_, _, _, _, rfl⟩)) ran
  obtain ⟨covered, walks⟩ := scanThread_covers _ stack
  obtain ⟨visited, walked, all, -⟩ := walks reachable
  exact ⟨stack, ⟨visited, walked, all 26 live⟩, fun both => inner (covered.mp both).2.1⟩

/-- The local references of a thread that has attached itself are in its first
frame, which the walk never enters. And after a call whose frame ends at the end
of the stack, the walk reads the word there. -/
theorem scanThread_misses :
    ((system ⟨4, .inl rfl⟩).run (small 400) [.initJNILrefs, .addJNILref]).any (fun stack =>
      decide (LiveWord stack.frame stack.nextRef 8 stack.last.live) &&
        stack.scanThread == some []) = true ∧
    ((system ⟨4, .inl rfl⟩).run (small 104) [.createTopFrame ⟨0, 0, 2⟩]).any (fun stack =>
      stack.scanThread.any (26 ∈ ·) && stack.stackEnd == 104) = true := by
  decide +kernel

end JavaStack

end JamVM.Alloc
