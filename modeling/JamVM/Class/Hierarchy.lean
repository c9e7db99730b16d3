import Mathlib.Data.List.DropRight

/-! # Class hierarchies

The parts of class files that linking reads, the walks over superclasses and
superinterfaces, and the access check. Classes are numbered in the order in which
they were loaded.
-/

namespace JamVM.Class

open List

abbrev Utf8 := Nat

structure AccessFlags where
  isPublic : Bool
  isPrivate : Bool
  isProtected : Bool
  isStatic : Bool
  isAbstract : Bool
  deriving DecidableEq

structure MethodInfo where
  name : Utf8
  type : Utf8
  flags : AccessFlags
  initialiser : Bool
  deriving DecidableEq

def MethodInfo.isVirtual (method : MethodInfo) : Bool :=
  !(method.flags.isStatic || method.flags.isPrivate || method.initialiser)

structure ClassFile where
  name : List Char
  loader : Nat
  isInterface : Bool
  super : Option Nat
  interfaces : List Nat
  methods : List MethodInfo

/-- Loaded classes: the superclass and the interfaces of a class are loaded
before it and are of the right kind, an interface has `Object` as its superclass,
and a class declares a name and descriptor once. -/
structure Hierarchy where
  file : Nat → ClassFile
  super_lt : ∀ target, ∀ super ∈ (file target).super, super < target
  interface_lt : ∀ target, ∀ iface ∈ (file target).interfaces, iface < target
  super_class : ∀ target, ∀ super ∈ (file target).super, (file super).isInterface = false
  interfaces_only : ∀ target, ∀ iface ∈ (file target).interfaces, (file iface).isInterface = true
  interface_super : ∀ target, (file target).isInterface = true →
    ∀ super ∈ (file target).super, (file super).super = none ∧ (file super).interfaces = []
  distinct : ∀ target, (file target).methods.Pairwise fun first second =>
    ¬ (first.name = second.name ∧ first.type = second.type)

namespace Hierarchy

/-! ## Hierarchies of listed class files -/

def noClass : ClassFile := ⟨[], 0, false, none, [], []⟩

def listedFile (files : List ClassFile) (target : Nat) : ClassFile := files.getD target noClass

def FitsIn (files : List ClassFile) (target : Nat) : Prop :=
  let file := listedFile files target
  (∀ super ∈ file.super, super < target ∧ (listedFile files super).isInterface = false ∧
    (file.isInterface = true → (listedFile files super).super = none ∧
      (listedFile files super).interfaces = [])) ∧
  (∀ iface ∈ file.interfaces, iface < target ∧ (listedFile files iface).isInterface = true) ∧
  file.methods.Pairwise fun first second => ¬ (first.name = second.name ∧ first.type = second.type)

instance (files : List ClassFile) (target : Nat) : Decidable (FitsIn files target) :=
  inferInstanceAs (Decidable (_ ∧ _ ∧ _))

theorem listedFile_of_le (unlisted : files.length ≤ target) :
    listedFile files target = noClass := by
  rw [listedFile, getD_eq_getElem?_getD, getElem?_eq_none unlisted]
  rfl

theorem fitsIn_all (fits : ∀ target < files.length, FitsIn files target)
    (target : Nat) : FitsIn files target := by
  by_cases listed : target < files.length
  · exact fits target listed
  · simp [FitsIn, listedFile_of_le (Nat.le_of_not_lt listed), noClass]

def ofFiles (files : List ClassFile) (fits : ∀ target < files.length, FitsIn files target) :
    Hierarchy where
  file := listedFile files
  super_lt target super mem := ((fitsIn_all fits target).1 super mem).1
  interface_lt target iface mem := ((fitsIn_all fits target).2.1 iface mem).1
  super_class target super mem := ((fitsIn_all fits target).1 super mem).2.1
  interfaces_only target iface mem := ((fitsIn_all fits target).2.1 iface mem).2
  interface_super target isInterface super mem :=
    ((fitsIn_all fits target).1 super mem).2.2 isInterface
  distinct target := (fitsIn_all fits target).2.2

/-! ## Runtime packages -/

def stripCommon : List Char → List Char → List Char × List Char
  | first :: rest, second :: rest' =>
    if first = second then stripCommon rest rest' else (first :: rest, second :: rest')
  | rest, rest' => (rest, rest')

section
variable (hier : Hierarchy)

def isSameRuntimePackage (class1 class2 : Nat) : Bool :=
  if class1 = class2 then
    true
  else if (hier.file class1).loader ≠ (hier.file class2).loader then
    false
  else
    let rest := stripCommon (hier.file class1).name (hier.file class2).name
    '/' ∉ rest.1 ∧ '/' ∉ rest.2

def packageName (name : List Char) : List Char := name.rdropWhile (· ≠ '/')

def SameRuntimePackage (class1 class2 : Nat) : Prop :=
  (hier.file class1).loader = (hier.file class2).loader ∧
    packageName (hier.file class1).name = packageName (hier.file class2).name

theorem packageName_eq_nil_iff : packageName name = [] ↔ '/' ∉ name := by
  unfold packageName
  rw [rdropWhile_eq_nil_iff]
  constructor
  · intro other slash
    simpa using other '/' slash
  · intro absent letter mem
    have other : letter ≠ '/' := fun equal => absent (equal ▸ mem)
    simpa using other

theorem packageName_append (head tail : List Char) : packageName (head ++ tail) =
      if '/' ∈ tail then head ++ packageName tail else packageName head := by
  have nothing : (tail.reverse.dropWhile (· ≠ '/')).isEmpty = true ↔ '/' ∉ tail := by
    rw [List.isEmpty_iff, ← packageName_eq_nil_iff, ← List.reverse_eq_nil_iff]
    rfl
  unfold packageName List.rdropWhile
  rw [reverse_append, dropWhile_append]
  by_cases slash : '/' ∈ tail
  · rw [if_pos slash, if_neg fun empty => nothing.mp empty slash, reverse_append, reverse_reverse]
  · rw [if_neg slash, if_pos (nothing.mpr slash)]

theorem stripCommon_spec (first second : List Char) :
    ∃ common, first = common ++ (stripCommon first second).1 ∧
      second = common ++ (stripCommon first second).2 ∧
      ∀ head ∈ (stripCommon first second).1.head?, head ∉ (stripCommon first second).2.head? := by
  induction first generalizing second with
  | nil => exact ⟨[], by simp [stripCommon]⟩
  | cons letter rest ih =>
    cases second with
    | nil => exact ⟨[], by simp [stripCommon]⟩
    | cons letter' rest' =>
      obtain rfl | same := eq_or_ne letter letter'
      · obtain ⟨common, left, right, differ⟩ := ih rest'
        simp only [stripCommon, if_true]
        refine ⟨letter :: common, ?_, ?_, differ⟩
        · rw [cons_append, ← left]
        · rw [cons_append, ← right]
      · simp only [stripCommon, if_neg same]
        exact ⟨[], rfl, rfl, by simp [Ne.symm same]⟩

theorem packageName_ne (slash : '/' ∈ rest) (differ : ∀ head ∈ rest.head?, head ∉ rest'.head?) :
    packageName (common ++ rest) ≠ packageName (common ++ rest') := by
  have present : packageName rest ≠ [] := fun empty => packageName_eq_nil_iff.mp empty slash
  rw [packageName_append, packageName_append, if_pos slash]
  split
  · intro equal
    obtain ⟨letter, tail, begins⟩ := exists_cons_of_ne_nil present
    have same := append_cancel_left equal
    obtain ⟨end1, whole⟩ : packageName rest <+: rest := rdropWhile_prefix ..
    obtain ⟨end2, whole'⟩ : packageName rest' <+: rest' := rdropWhile_prefix ..
    rw [← same] at whole'
    rw [← whole, ← whole', begins] at differ
    simp at differ
  · intro equal
    have shorter : packageName common <+: common := rdropWhile_prefix ..
    have shorter := shorter.length_le
    have longer := congrArg length equal
    rw [length_append] at longer
    have := length_pos_iff.mpr present
    omega

theorem stripCommon_slash_iff (first second : List Char) :
    ('/' ∉ (stripCommon first second).1 ∧ '/' ∉ (stripCommon first second).2) ↔
      packageName first = packageName second := by
  obtain ⟨common, left, right, differ⟩ := stripCommon_spec first second
  generalize stripCommon first second = rest at *
  subst left right
  constructor
  · rintro ⟨absent, absent'⟩
    rw [packageName_append, packageName_append, if_neg absent, if_neg absent']
  · intro equal
    constructor
    · exact fun slash => packageName_ne slash differ equal
    · refine fun slash => packageName_ne slash ?_ equal.symm
      exact fun head mem member' => differ head member' mem

theorem isSameRuntimePackage_iff (class1 class2 : Nat) :
    hier.isSameRuntimePackage class1 class2 = true ↔
      hier.SameRuntimePackage class1 class2 := by
  unfold isSameRuntimePackage SameRuntimePackage
  split
  · rename_i same
    simp [same]
  · split
    · rename_i loaders
      simp [loaders]
    · rename_i loaders
      rw [ne_eq, not_not] at loaders
      simp only [loaders, true_and, decide_eq_true_eq]
      exact stripCommon_slash_iff _ _

/-! ## Superclasses and superinterfaces -/

def isSubClassWithin (target : Nat) : Nat → Nat → Bool
  | 0, _ => false
  | fuel + 1, test =>
    if test = target then
      true
    else
      match (hier.file test).super with
      | some super => isSubClassWithin target fuel super
      | none => false

def isSubClassOf (target test : Nat) : Bool := isSubClassWithin hier target (test + 1) test

inductive SubClass (target : Nat) : Nat → Prop
  | refl : SubClass target target
  | inherits {test super : Nat} : super ∈ (hier.file test).super →
      SubClass target super → SubClass target test

end

variable {hier : Hierarchy} {target first second test : Nat}

theorem isSubClassWithin_iff :
    ∀ {test : Nat}, test < fuel → (isSubClassWithin hier target fuel test = true ↔
        SubClass hier target test) := by
  induction fuel with
  | zero => exact fun bound => absurd bound (Nat.not_lt_zero _)
  | succ fuel ih =>
    intro test bound
    unfold isSubClassWithin
    split
    · rename_i same
      simpa using same ▸ SubClass.refl
    · rename_i ne
      cases known : (hier.file test).super with
      | none =>
        simp only [Bool.false_eq_true, false_iff]
        intro subclass
        cases subclass with
        | refl => exact ne rfl
        | inherits mem => simp [known] at mem
      | some super =>
        have smaller := hier.super_lt test super known
        rw [ih (by omega)]
        constructor
        · exact .inherits known
        · intro subclass
          cases subclass with
          | refl => exact absurd rfl ne
          | inherits mem rest =>
            rw [known] at mem
            cases mem
            exact rest

theorem isSubClassOf_iff (hier : Hierarchy) (target test : Nat) :
    hier.isSubClassOf target test = true ↔ SubClass hier target test :=
  isSubClassWithin_iff (Nat.lt_succ_self test)

theorem SubClass.trans (upper : SubClass hier first second) (lower : SubClass hier second third) :
    SubClass hier first third := by
  induction lower with
  | refl => exact upper
  | inherits mem _ ih => exact .inherits mem ih

theorem SubClass.le (subclass : SubClass hier target test) : target ≤ test := by
  induction subclass with
  | refl => exact Nat.le_refl _
  | inherits mem =>
    have := hier.super_lt _ _ mem
    omega

theorem SubClass.total (above : SubClass hier first test) (above' : SubClass hier second test) :
    SubClass hier first second ∨ SubClass hier second first := by
  induction above with
  | refl => exact .inr above'
  | @inherits test super mem above ih =>
    cases above' with
    | refl => exact .inl (.inherits mem above)
    | inherits member' above' =>
      cases Option.some.inj (mem.symm.trans member')
      exact ih above'

/-- The walk of `implements` over the interfaces and superclasses of `test`, with a
bound on its depth. -/
def implementsWithin (hier : Hierarchy) (target : Nat) : Nat → Nat → Bool
  | 0, _ => false
  | fuel + 1, test =>
    (hier.file test).interfaces.any (fun iface =>
      target = iface || implementsWithin hier target fuel iface) ||
    match (hier.file test).super with
    | some super => implementsWithin hier target fuel super
    | none => false

def «implements» (hier : Hierarchy) (target test : Nat) : Bool :=
  implementsWithin hier target (test + 1) test

inductive SuperInterface (hier : Hierarchy) (target : Nat) : Nat → Prop
  | direct {test : Nat} : target ∈ (hier.file test).interfaces → SuperInterface hier target test
  | extended {test iface : Nat} : iface ∈ (hier.file test).interfaces →
      SuperInterface hier target iface → SuperInterface hier target test
  | inherited {test super : Nat} : super ∈ (hier.file test).super →
      SuperInterface hier target super → SuperInterface hier target test

theorem implementsWithin_iff :
    ∀ {test : Nat}, test < fuel → (implementsWithin hier target fuel test = true ↔
        SuperInterface hier target test) := by
  induction fuel with
  | zero => exact fun bound => absurd bound (Nat.not_lt_zero _)
  | succ fuel ih =>
    intro test bound
    simp only [implementsWithin, Bool.or_eq_true, any_eq_true, decide_eq_true_eq]
    constructor
    · rintro (⟨iface, mem, same | deeper⟩ | above)
      · exact .direct (same ▸ mem)
      · have smaller := hier.interface_lt test iface mem
        exact .extended mem ((ih (by omega)).mp deeper)
      · cases known : (hier.file test).super with
        | none => simp [known] at above
        | some super =>
          have smaller := hier.super_lt test super known
          simp only [known] at above
          exact .inherited known ((ih (by omega)).mp above)
    · intro superinterface
      cases superinterface with
      | direct mem => exact .inl ⟨target, mem, .inl rfl⟩
      | @extended _ iface mem deeper =>
        have smaller := hier.interface_lt test iface mem
        exact .inl ⟨iface, mem, .inr ((ih (by omega)).mpr deeper)⟩
      | @inherited _ super mem above =>
        have smaller := hier.super_lt test super mem
        right
        rw [Option.mem_def.mp mem]
        exact (ih (by omega)).mpr above

theorem implements_iff (hier : Hierarchy) (target test : Nat) :
    hier.implements target test = true ↔ SuperInterface hier target test :=
  implementsWithin_iff (Nat.lt_succ_self test)

theorem SuperInterface.trans (upper : SuperInterface hier first second)
    (lower : SuperInterface hier second third) :
    SuperInterface hier first third := by
  induction lower with
  | direct mem => exact .extended mem upper
  | extended mem _ ih => exact .extended mem ih
  | inherited mem _ ih => exact .inherited mem ih

theorem SuperInterface.isInterface (superinterface : SuperInterface hier interface test) :
    (hier.file interface).isInterface = true := by
  induction superinterface with
  | direct mem => exact hier.interfaces_only _ _ mem
  | extended _ _ ih | inherited _ _ ih => exact ih

theorem SuperInterface.lt (superinterface : SuperInterface hier target test) : target < test := by
  induction superinterface with
  | direct mem => exact hier.interface_lt _ _ mem
  | extended mem =>
    have := hier.interface_lt _ _ mem
    omega
  | inherited mem =>
    have := hier.super_lt _ _ mem
    omega

/-! ## Access -/

def checkMethodOrFieldAccess (hier : Hierarchy) (flags : AccessFlags)
    (declaring accessing : Nat) : Bool :=
  if flags.isPublic then
    true
  else if flags.isPrivate then
    declaring = accessing
  else if flags.isProtected && hier.isSubClassOf declaring accessing then
    true
  else
    hier.isSameRuntimePackage declaring accessing

end Hierarchy

end JamVM.Class
