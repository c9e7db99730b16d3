import JamVM.Interp.Bytecode
import JamVM.Interp.Synchronized

/-! # Fields of `this`

`aload_0` and a `getfield` after it are rewritten to one instruction, which reads the field
through the variable `this` of the interpreter instead of local 0.
-/

namespace JamVM.Interp.Synchronized

open Activation hiding ob this
open List

inductive Outcome (Word : Type v)
  | pushed (word : Word)
  | nullPointerException
  deriving DecidableEq

/-- What the indirect interpreter writes over an `aload_0` when the `getfield` after it has
been resolved. -/
def aloadThis (field : FieldBlock) : Opcode :=
  if field.offset > 255 then
    .iload0
  else
    match field.type with
    | .long => .iload0
    | .reference => .getfieldThisRef
    | .single => .getfieldThis

variable {Ref : Type u} {Word : Type v}

section
variable [DecidableEq Ref] (null : Ref) (instData : FieldType → Ref → Int → Word)

/-- `OPC_GETFIELD_THIS` and `OPC_GETFIELD_THIS_REF`, which do not check `this`. Reading
through `NULL` is undefined. -/
def getfieldThis (this : Ref) : Opcode → Operand → Option (Outcome Word)
  | .getfieldThis, .value offset =>
    if this = null then none else some (.pushed (instData .single this offset))
  | .getfieldThisRef, .value offset =>
    if this = null then none else some (.pushed (instData .reference this offset))
  | _, _ => none

def getfield (field : FieldBlock) (local0 : Ref) : Outcome Word :=
  if local0 = null then .nullPointerException else .pushed (instData field.type local0 field.offset)

end

def KeepsReceiver (state : State Ref) : Action Ref → Prop
  | .store 0 value => ∀ act ∈ state.activations.head?, ∀ frame ∈ act.frames.head?,
      frame.mb.isStatic = false → value = frame.lvars 0
  | _ => True

def Activation.Receives (act : Activation Ref) : Prop :=
  ∀ frame ∈ act.frames.head?, frame.mb.isStatic = false → act.this = frame.lvars 0

section
variable {state next : State Ref} {action : Action Ref}
  (receives : ∀ act ∈ state.activations, act.Receives) (keeps : KeepsReceiver state action)
include receives keeps

theorem receives_interpret (isTop : state.activations = ⟨ob, frame :: rest, this, none⟩ :: outer)
    (ran : interpret state ob frame rest this outer action = some next) :
    ∀ act ∈ next.activations, act.Receives := by
  rw [isTop] at receives
  obtain ⟨isThis, others⟩ := forall_mem_cons.mp receives
  cases action with
  | invoke pc mb =>
    cases ran
    refine forall_mem_cons.mpr ⟨?_, others⟩
    cases mb.isNative with
    | true => simpa [Receives] using isThis
    | false => simp [Receives]
  | store index =>
    cases ran
    refine forall_mem_cons.mpr ⟨?_, others⟩
    rintro _ ⟨⟩ isInstance
    rw [isThis frame rfl isInstance]
    cases index with
    | zero => exact (keeps _ (by rw [isTop]; rfl) frame rfl isInstance).symm
    | succ => rfl
  | methodReturn =>
    cases rest with
    | nil => exact Option.some.inj ran ▸ others
    | cons =>
      cases ran
      exact forall_mem_cons.mpr ⟨by simp [Receives], others⟩
  | throwException =>
    rw [interpret] at ran
    split at ran <;> cases ran
    · exact forall_mem_cons.mpr ⟨by simp [Receives], others⟩
    · exact others
  | execute | nativeReturn => cases ran

theorem receives_proceed (ran : proceed state action = some next) :
    ∀ act ∈ next.activations, act.Receives := by
  unfold proceed at ran
  split at ran
  case h_1 | h_2 => cases ran
  case h_3 isTop =>
    rw [isTop] at receives
    obtain ⟨inner, others⟩ := forall_mem_cons.mp receives
    split at ran <;> cases ran
    exact forall_mem_cons.mpr ⟨inner, others⟩
  case h_4 isTop =>
    split at ran
    · rw [isTop] at receives
      split at ran <;> cases ran
      exact (forall_mem_cons.mp receives).2
    · exact receives_interpret receives keeps isTop ran

theorem receives_step (ran : step state action = some next) :
    ∀ act ∈ next.activations, act.Receives := by
  cases action with
  | execute =>
    cases ran
    exact forall_mem_cons.mpr ⟨by simp [Receives], receives⟩
  | _ => exact receives_proceed receives keeps ran

end

/-- As long as instance methods keep their receiver in local 0, the instruction of prepared
code and that of the indirect interpreter do what the bytecodes do. -/
theorem getfieldThis_eq_getfield [DecidableEq Ref] {null : Ref}
    (instData : FieldType → Ref → Int → Word)
    (reachable : (system Ref).ReachableWhile KeepsReceiver state)
    (running : state.activations = ⟨ob, frame :: rest, this, none⟩ :: outer)
    (isInstance : frame.mb.isStatic = false) (notNull : frame.lvars 0 ≠ null) :
    (∀ (method : Method) resolveField pc field instr cache,
      Opcode.ofByte (method.byte pc) = some .aload0 →
      method.fieldOfThis resolveField pc = some field →
      method.fetch resolveField pc = some instr →
      getfieldThis null instData this instr.opcode (instr.operand cache) =
        some (getfield null instData field (frame.lvars 0))) ∧
    ∀ field, aloadThis field ≠ .iload0 →
      getfieldThis null instData this (aloadThis field) (.value field.offset) =
        some (getfield null instData field (frame.lvars 0)) := by
  have receives := reachable.invariant (fun state => ∀ act ∈ state.activations, act.Receives)
    (by rintro _ rfl; simp) fun _ _ _ => receives_step
  obtain rfl : this = frame.lvars 0 := receives _ (running ▸ mem_cons_self) frame rfl isInstance
  constructor
  · intro method resolveField pc field instr cache isLoad isField fetched
    cases (Method.fetch_pair isLoad isField).symm.trans fetched
    rw [Method.fieldOfThis] at isField
    split_ifs at isField
    have single : field.type ≠ .long := by simpa using (Option.filter_eq_some_iff.mp isField).2
    cases type : field.type with
    | long => exact absurd type single
    | single | reference => simp [getfieldThis, getfield, notNull, type]
  · intro field rewritten
    unfold aloadThis at rewritten ⊢
    by_cases large : field.offset > 255
    · simp [large] at rewritten
    · simp only [if_neg large] at rewritten ⊢
      cases type : field.type with
      | long => simp [type] at rewritten
      | single | reference => simp [getfieldThis, getfield, notNull, type]

def assignsThis : Method := ⟨[43, 75, 42, 180, 0, 1, 172], false, [], fun _ => false⟩

def instanceMethod : MethodBlock Nat := ⟨false, false, false, 100, []⟩

def catchingMethod : MethodBlock Nat := ⟨false, false, false, 100, [⟨0, 10, 20, 0⟩]⟩

/-- A method of object 5 calls one of object 7, which calls one of object 8 and catches the
exception that this throws. The field is then one of object 7. -/
theorem getfieldThis_eq_getfield_caught :
    (assignsThis.fetch (fun _ => some ⟨.single, 8⟩) 2).map (fun instr =>
      getfieldThis 0 (fun _ ref _ => ref) 7 instr.opcode (instr.operand 0)) =
        some (some (.pushed 7)) ∧
    getfieldThis 0 (fun _ ref _ => ref) 7 .getfieldThis (.value 8) = some (.pushed 7) := by
  obtain ⟨state, reachable, frame, rest, running, isInstance, receiver⟩ :
      ∃ state, (system Nat).ReachableWhile KeepsReceiver state ∧ ∃ frame rest,
        state.activations = [⟨some 5, frame :: rest, 7, none⟩] ∧ frame.mb.isStatic = false ∧
        frame.lvars 0 = 7 :=
    ⟨_, .step (.step (.step (.step (.step (.initial rfl)
      (show KeepsReceiver _ (.execute (some 5) instanceMethod fun _ => 6) from trivial) rfl)
      (show KeepsReceiver _ (.invoke 3 catchingMethod fun _ => 7) from trivial) rfl)
      (show KeepsReceiver _ (.store 1 9) from trivial) rfl)
      (show KeepsReceiver _ (.invoke 2 instanceMethod fun _ => 8) from trivial) rfl)
      (show KeepsReceiver _ (.throwException 4 fun _ _ => true) from trivial) rfl,
      _, _, rfl, rfl, rfl⟩
  obtain ⟨prepared, rewritten⟩ := getfieldThis_eq_getfield (fun _ ref _ => ref) reachable running
    isInstance (receiver ▸ show 7 ≠ 0 by decide)
  rw [receiver] at prepared rewritten
  refine ⟨?_, rewritten ⟨.single, 8⟩ (by decide)⟩
  obtain ⟨instr, fetched⟩ : ∃ instr, assignsThis.fetch (fun _ => some ⟨.single, 8⟩) 2 =
    some instr := ⟨_, rfl⟩
  rw [fetched, Option.map_some,
    prepared assignsThis _ 2 ⟨.single, 8⟩ instr 0 (by decide) rfl fetched]
  rfl

/-- After local 0 has been assigned, the field of the old object is read. -/
theorem getfieldThis_stored : ((system Nat).run ⟨[], [], []⟩
    [.execute (some 5) instanceMethod fun _ => 6, .store 0 6]).any (fun state =>
      state.activations.any fun act => act.frames.any fun frame =>
        (assignsThis.fetch (fun _ => some ⟨.single, 8⟩) 2).any fun instr =>
          getfieldThis 0 (fun _ ref _ => ref) act.this instr.opcode (instr.operand 0) =
            some (.pushed 5) ∧
          getfield 0 (fun _ ref _ => ref) ⟨.single, 8⟩ (frame.lvars 0) = .pushed 6) = true := by
  decide +kernel

end JamVM.Interp.Synchronized
