import JamVM.Class.Hierarchy

/-! # The subtype test

`isInstanceOf` compares array classes by their dimensions and element classes. Subtyping is
defined by single steps: to a superclass, to a superinterface, and from the component class
of an array class to that of another.
-/

namespace JamVM.Class

open List

/-- A class at run time. Loaded classes are those of a hierarchy; the nine primitive
classes include `void`. -/
inductive RuntimeClass
  | loaded (number : Nat)
  | primitive (index : Fin 9)
  | array (elem : RuntimeClass)
  deriving DecidableEq

namespace RuntimeClass

def isArray : RuntimeClass → Bool
  | .array _ => true
  | .loaded _ | .primitive _ => false

def elementClass : RuntimeClass → RuntimeClass
  | .array elem => elem.elementClass
  | other => other

def dim : RuntimeClass → Nat
  | .array elem => elem.dim + 1
  | .loaded _ | .primitive _ => 0

def arrayOf (element : RuntimeClass) : Nat → RuntimeClass
  | 0 => element
  | dim + 1 => .array (arrayOf element dim)

theorem arrayOf_elementClass (target : RuntimeClass) :
    arrayOf target.elementClass target.dim = target := by
  induction target with
  | loaded | primitive => rfl
  | array elem ih => exact congrArg array ih

theorem arrayOf_add (element : RuntimeClass) (more dim : Nat) :
    arrayOf element (more + dim) = arrayOf (arrayOf element more) dim := by
  induction dim with
  | zero => rfl
  | succ dim ih => exact congrArg array ih

theorem isArray_elementClass (target : RuntimeClass) : target.elementClass.isArray = false := by
  induction target with
  | loaded | primitive => rfl
  | array elem ih => exact ih

theorem sizeOf_elementClass_le (target : RuntimeClass) :
    sizeOf target.elementClass ≤ sizeOf target := by
  induction target with
  | loaded | primitive => exact Nat.le_refl _
  | array =>
    simp only [elementClass, array.sizeOf_spec]
    omega

end RuntimeClass

/-- A hierarchy with the classes that array classes inherit from. A superclass without a
superclass is `Object`, and every class with interfaces has a superclass. -/
structure CoreClasses where
  hierarchy : Hierarchy
  object : Nat
  cloneable : Nat
  serializable : Nat
  object_root : (hierarchy.file object).super = none ∧
    (hierarchy.file object).interfaces = [] ∧ (hierarchy.file object).isInterface = false
  cloneable_interface : (hierarchy.file cloneable).isInterface = true
  serializable_interface : (hierarchy.file serializable).isInterface = true
  super_root : ∀ target, ∀ super ∈ (hierarchy.file target).super,
    (hierarchy.file super).super = none → super = object
  interfaces_super : ∀ target, (hierarchy.file target).interfaces ≠ [] →
    (hierarchy.file target).super ≠ none

namespace CoreClasses

open RuntimeClass

variable (classes : CoreClasses)

def super : RuntimeClass → Option RuntimeClass
  | .loaded number => (classes.hierarchy.file number).super.map loaded
  | .primitive _ => none
  | .array _ => some (loaded classes.object)

def interfaces : RuntimeClass → List RuntimeClass
  | .loaded number => (classes.hierarchy.file number).interfaces.map loaded
  | .primitive _ => []
  | .array _ => [loaded classes.cloneable, loaded classes.serializable]

def isInterface : RuntimeClass → Bool
  | .loaded number => (classes.hierarchy.file number).isInterface
  | .primitive _ | .array _ => false

/-! ## The test -/

def implementsLoaded (target : RuntimeClass) (test : Nat) : Bool :=
  match target with
  | .loaded number => classes.hierarchy.implements number test
  | .primitive _ | .array _ => false

def «implements» (target : RuntimeClass) : RuntimeClass → Bool
  | .loaded test => classes.implementsLoaded target test
  | .primitive _ => false
  | .array _ =>
    [classes.cloneable, classes.serializable].any (fun iface =>
      target = loaded iface || classes.implementsLoaded target iface) ||
    classes.implementsLoaded target classes.object

def isSubClassOf (target : RuntimeClass) : RuntimeClass → Bool
  | .loaded test =>
    match target with
    | .loaded number => classes.hierarchy.isSubClassOf number test
    | .primitive _ | .array _ => false
  | .primitive index => target = primitive index
  | .array elem => target = array elem || target = loaded classes.object

mutual

def isInstOfArray0 (arrayClass testElem : RuntimeClass) (testDim : Nat) : Bool :=
  if testDim = arrayClass.dim then
    isInstanceOf arrayClass.elementClass testElem
  else if testDim > arrayClass.dim then
    if classes.isInterface arrayClass.elementClass then
      classes.implements arrayClass.elementClass arrayClass
    else
      some arrayClass.elementClass = classes.super arrayClass
  else
    false
termination_by (sizeOf testElem, 2)

def isInstOfArray (target elem : RuntimeClass) : Bool :=
  if target.isArray then
    isInstOfArray0 target elem.elementClass (elem.dim + 1)
  else
    some target = classes.super (array elem)
termination_by (sizeOf elem + 1, 0)
decreasing_by
  have := elem.sizeOf_elementClass_le
  exact Prod.Lex.left _ _ (by omega)

def isInstanceOf (target test : RuntimeClass) : Bool :=
  if target = test then
    true
  else if classes.isInterface target then
    classes.implements target test
  else
    match test with
    | .array elem => isInstOfArray target elem
    | .loaded number => classes.isSubClassOf target (loaded number)
    | .primitive index => classes.isSubClassOf target (primitive index)
termination_by (sizeOf test, 1)
decreasing_by
  rw [array.sizeOf_spec]
  rw [Nat.add_comm]
  exact Prod.Lex.right _ (by omega)

end

def arrayStoreCheck (arrayClass test : RuntimeClass) : Bool :=
  if !test.isArray then
    classes.isInstOfArray0 arrayClass test 1
  else
    classes.isInstOfArray0 arrayClass test.elementClass (test.dim + 1)

/-! ## Subtyping -/

inductive Subtype (classes : CoreClasses) : RuntimeClass → RuntimeClass → Prop
  | refl {test : RuntimeClass} : Subtype classes test test
  | superclass {test super target : RuntimeClass} : super ∈ classes.super test →
      Subtype classes super target → Subtype classes test target
  | superinterface {test iface target : RuntimeClass} :
      iface ∈ classes.interfaces test → Subtype classes iface target →
      Subtype classes test target
  | covariant {test target : RuntimeClass} : (∀ index, test ≠ primitive index) →
      Subtype classes test target → Subtype classes (array test) (array target)

variable {classes}

theorem Subtype.trans (lower : classes.Subtype first second)
    (upper : classes.Subtype second third) : classes.Subtype first third := by
  induction lower generalizing third with
  | refl => exact upper
  | superclass mem _ ih => exact .superclass mem (ih upper)
  | superinterface mem _ ih => exact .superinterface mem (ih upper)
  | covariant reference lower ih =>
    cases upper with
    | refl => exact .covariant reference lower
    -- All array classes have the same superclass and the same interfaces.
    | superclass mem upper => exact .superclass mem upper
    | superinterface mem upper => exact .superinterface mem upper
    | covariant _ upper => exact .covariant reference (ih upper)

variable {target test elem : RuntimeClass}

theorem subtype_primitive_iff :
    classes.Subtype (primitive index) target ↔ target = primitive index := by
  constructor
  · intro subtype
    cases subtype with
    | refl => rfl
    | superclass mem | superinterface mem => cases mem
  · rintro rfl
    exact .refl

theorem object_above {test : Nat} (hasSuper : (classes.hierarchy.file test).super ≠ none) :
    classes.hierarchy.SubClass classes.object test := by
  induction test using Nat.strong_induction_on with
  | _ test ih =>
    obtain ⟨super, mem⟩ := Option.ne_none_iff_exists'.mp hasSuper
    by_cases isRoot : (classes.hierarchy.file super).super = none
    · exact .inherits mem (classes.super_root test super mem isRoot ▸ .refl)
    · have smaller := classes.hierarchy.super_lt test super mem
      exact .inherits mem (ih super smaller isRoot)

theorem subtype_loaded_iff {test : Nat} :
    classes.Subtype (loaded test) target ↔ ∃ number, target = loaded number ∧
      (classes.hierarchy.SubClass number test ∨ classes.hierarchy.SuperInterface number test) := by
  constructor
  · intro subtype
    generalize isTest : loaded test = start at subtype
    induction subtype generalizing test with
    | refl => exact ⟨test, isTest.symm, .inl .refl⟩
    | superclass mem _ ih =>
      subst isTest
      obtain ⟨super, isSuper, rfl⟩ := Option.map_eq_some_iff.mp mem
      obtain ⟨number, rfl, above⟩ := ih rfl
      exact ⟨number, rfl, above.imp (.inherits isSuper) (.inherited isSuper)⟩
    | superinterface mem _ ih =>
      subst isTest
      obtain ⟨iface, isInterface, rfl⟩ := mem_map.mp mem
      obtain ⟨number, rfl, above | above⟩ := ih rfl
      · refine ⟨number, rfl, ?_⟩
        cases above with
        | refl => exact .inr (.direct isInterface)
        | @inherits _ super isSuper above =>
          -- Above an interface there is only `Object`.
          have isRoot := classes.hierarchy.interface_super iface
            (classes.hierarchy.interfaces_only test iface isInterface) super isSuper
          cases classes.super_root iface super isSuper isRoot.1
          cases above with
          | refl =>
            exact .inl (object_above (classes.interfaces_super test (ne_nil_of_mem isInterface)))
          | inherits mem =>
            rw [isRoot.1] at mem
            cases mem
      · exact ⟨number, rfl, .inr (.extended isInterface above)⟩
    | covariant => cases isTest
  · rintro ⟨number, rfl, above | above⟩
    · induction above with
      | refl => exact .refl
      | inherits mem _ ih => exact .superclass (Option.mem_map_of_mem _ mem) ih
    · induction above with
      | direct mem => exact .superinterface (mem_map_of_mem mem) .refl
      | extended mem _ ih => exact .superinterface (mem_map_of_mem mem) ih
      | inherited mem _ ih => exact .superclass (Option.mem_map_of_mem _ mem) ih

theorem subtype_object_iff :
    classes.Subtype (loaded classes.object) target ↔ target = loaded classes.object := by
  obtain ⟨noSuper, noInterfaces, _⟩ := classes.object_root
  constructor
  · intro subtype
    cases subtype with
    | refl => rfl
    | superclass mem => simp [super, noSuper] at mem
    | superinterface mem => simp [interfaces, noInterfaces] at mem
  · rintro rfl
    exact .refl

theorem not_subtype_array (single : test.isArray = false) :
    ¬ classes.Subtype test (array elem) := by
  intro subtype
  cases test with
  | loaded =>
    obtain ⟨_, wrong, _⟩ := subtype_loaded_iff.mp subtype
    cases wrong
  | primitive => cases subtype_primitive_iff.mp subtype
  | array => cases single

theorem subtype_array_iff :
    classes.Subtype (array test) (array target) ↔ classes.Subtype test target := by
  constructor
  · intro subtype
    cases subtype with
    | refl => exact .refl
    | superclass mem above =>
      cases mem
      exact absurd above (not_subtype_array rfl)
    | superinterface mem above =>
      simp only [interfaces, mem_cons, not_mem_nil, or_false] at mem
      rcases mem with rfl | rfl <;> exact absurd above (not_subtype_array rfl)
    | covariant _ above => exact above
  · intro subtype
    cases test with
    | primitive => exact subtype_primitive_iff.mp subtype ▸ .refl
    | loaded | array => exact .covariant (by simp) subtype

theorem subtype_arrayOf_iff (dim : Nat) :
    classes.Subtype (arrayOf test dim) (arrayOf target dim) ↔ classes.Subtype test target := by
  induction dim with
  | zero => rfl
  | succ dim ih => exact subtype_array_iff.trans ih

theorem subtype_above_array_iff (single : target.isArray = false) :
    classes.Subtype (array elem) target ↔ target = loaded classes.object ∨
      classes.Subtype (loaded classes.cloneable) target ∨
      classes.Subtype (loaded classes.serializable) target := by
  constructor
  · intro subtype
    cases subtype with
    | refl | covariant => cases single
    | superclass mem above =>
      cases mem
      exact .inl (subtype_object_iff.mp above)
    | superinterface mem above =>
      simp only [interfaces, mem_cons, not_mem_nil, or_false] at mem
      rcases mem with rfl | rfl
      · exact .inr (.inl above)
      · exact .inr (.inr above)
  · rintro (rfl | above | above)
    · exact .superclass rfl .refl
    · exact .superinterface mem_cons_self above
    · exact .superinterface (mem_cons_of_mem _ mem_cons_self) above

/-! ## Correctness of the test -/

theorem superclass_isInterface {test : Nat} (above : classes.hierarchy.SubClass number test) :
    number = test ∨ (classes.hierarchy.file number).isInterface = false := by
  induction above with
  | refl => exact .inl rfl
  | @inherits test super mem _ ih =>
    right
    rcases ih with isSuper | isClass
    · exact isSuper ▸ classes.hierarchy.super_class test super mem
    · exact isClass

theorem implementsLoaded_iff {test : Nat} (isInterface : classes.isInterface target = true) :
    target = loaded test ∨ classes.implementsLoaded target test = true ↔
      classes.Subtype (loaded test) target := by
  cases target with
  | primitive | array => cases isInterface
  | loaded number =>
    rw [subtype_loaded_iff, implementsLoaded, classes.hierarchy.implements_iff]
    constructor
    · rintro (isTest | above)
      · exact ⟨test, isTest, .inl .refl⟩
      · exact ⟨number, rfl, .inr above⟩
    · rintro ⟨_, isNumber, above | above⟩ <;> cases isNumber
      · rcases superclass_isInterface above with isTest | isClass
        · exact .inl (congrArg loaded isTest)
        · cases isInterface.symm.trans isClass
      · exact .inr above

theorem isSubClassOf_iff (single : test.isArray = false)
    (isClass : classes.isInterface target = false) :
    classes.isSubClassOf target test = true ↔ classes.Subtype test target := by
  cases test with
  | array => cases single
  | primitive => simp [isSubClassOf, subtype_primitive_iff]
  | loaded test =>
    rw [subtype_loaded_iff]
    cases target with
    | primitive | array => simp [isSubClassOf]
    | loaded number =>
      refine (classes.hierarchy.isSubClassOf_iff number test).trans ⟨fun above =>
        ⟨number, rfl, .inl above⟩, ?_⟩
      rintro ⟨_, isNumber, above | above⟩ <;> cases isNumber
      · exact above
      · cases isClass.symm.trans above.isInterface

theorem implements_array_iff (isInterface : classes.isInterface target = true) :
    classes.implements target (array elem) = true ↔ classes.Subtype (array elem) target := by
  have single : target.isArray = false := by
    cases target with
    | array => cases isInterface
    | loaded | primitive => rfl
  have notObject : target ≠ loaded classes.object := by
    rintro rfl
    cases isInterface.symm.trans classes.object_root.2.2
  have noneAbove : classes.implementsLoaded target classes.object = false := by
    rw [Bool.eq_false_iff]
    intro above
    exact notObject (subtype_object_iff.mp ((implementsLoaded_iff isInterface).mp (.inr above)))
  rw [subtype_above_array_iff single, ← implementsLoaded_iff isInterface,
    ← implementsLoaded_iff isInterface]
  simp [«implements», noneAbove, notObject]

theorem subtype_array_class_iff
    (single : target.isArray = false) (isClass : classes.isInterface target = false) :
    classes.Subtype (array elem) target ↔ target = loaded classes.object := by
  have aboveInterface : ∀ {iface : Nat}, (classes.hierarchy.file iface).isInterface = true →
      classes.Subtype (loaded iface) target → target = loaded classes.object := by
    intro iface isInterface subtype
    obtain ⟨number, rfl, above | above⟩ := subtype_loaded_iff.mp subtype
    · cases above with
      | refl => cases isInterface.symm.trans isClass
      | @inherits _ super isSuper above =>
        have isRoot := classes.hierarchy.interface_super iface isInterface super isSuper
        cases classes.super_root iface super isSuper isRoot.1
        exact subtype_object_iff.mp (subtype_loaded_iff.mpr ⟨number, rfl, .inl above⟩)
    · cases isClass.symm.trans above.isInterface
  rw [subtype_above_array_iff single]
  constructor
  · rintro (isObject | above | above)
    · exact isObject
    · exact aboveInterface classes.cloneable_interface above
    · exact aboveInterface classes.serializable_interface above
  · exact .inl

theorem isInstanceOf_single_iff (single : test.isArray = false) :
    classes.isInstanceOf target test = true ↔ classes.Subtype test target := by
  rw [isInstanceOf.eq_def]
  split_ifs with same isInterface
  · exact ⟨fun _ => same ▸ .refl, fun _ => rfl⟩
  · cases test with
    | array => cases single
    | loaded =>
      rw [← implementsLoaded_iff isInterface, or_iff_right same]
      rfl
    | primitive => simp [«implements», subtype_primitive_iff, same]
  · have isClass : classes.isInterface target = false := by simpa using isInterface
    cases test with
    | array => cases single
    | loaded | primitive => exact isSubClassOf_iff rfl isClass

theorem isInstOfArray0_iff (isArray : arrayClass.isArray = true) (single : testElem.isArray = false)
    (positive : 0 < testDim) :
    classes.isInstOfArray0 arrayClass testElem testDim = true ↔
      classes.Subtype (arrayOf testElem testDim) arrayClass := by
  have isElement := arrayClass.isArray_elementClass
  rw [isInstOfArray0.eq_def]
  conv_rhs => rw [← arrayClass.arrayOf_elementClass]
  split_ifs with same more isInterface
  · rw [isInstanceOf_single_iff single, same]
    exact (subtype_arrayOf_iff _).symm
  · obtain ⟨extra, rfl⟩ : ∃ extra, testDim = extra + 1 + arrayClass.dim :=
      ⟨testDim - arrayClass.dim - 1, by omega⟩
    rw [arrayOf_add, subtype_arrayOf_iff]
    cases arrayClass with
    | loaded | primitive => cases isArray
    | array =>
      -- The walk of `implements` does not look at the component class.
      change classes.implements _ (array (arrayOf testElem extra)) = true ↔ _
      exact implements_array_iff isInterface
  · obtain ⟨extra, rfl⟩ : ∃ extra, testDim = extra + 1 + arrayClass.dim :=
      ⟨testDim - arrayClass.dim - 1, by omega⟩
    have isClass : classes.isInterface arrayClass.elementClass = false := by simpa using isInterface
    rw [arrayOf_add, subtype_arrayOf_iff, arrayOf, subtype_array_class_iff isElement isClass]
    cases arrayClass with
    | loaded | primitive => cases isArray
    | array => simp [super]
  · obtain ⟨extra, isDim⟩ : ∃ extra, arrayClass.dim = extra + 1 + testDim :=
      ⟨arrayClass.dim - testDim - 1, by omega⟩
    rw [isDim, arrayOf_add, subtype_arrayOf_iff]
    exact iff_of_false id (not_subtype_array single)

theorem isInstanceOf_iff :
    classes.isInstanceOf target test = true ↔ classes.Subtype test target := by
  cases test with
  | loaded | primitive => exact isInstanceOf_single_iff rfl
  | array elem =>
    rw [isInstanceOf.eq_def]
    split_ifs with same isInterface
    · exact ⟨fun _ => same ▸ .refl, fun _ => rfl⟩
    · exact implements_array_iff isInterface
    · dsimp only
      rw [isInstOfArray.eq_def]
      split_ifs with isArray
      · rw [isInstOfArray0_iff isArray elem.isArray_elementClass (Nat.succ_pos _), arrayOf,
          arrayOf_elementClass]
      · have isClass : classes.isInterface target = false := by simpa using isInterface
        rw [subtype_array_class_iff (by simpa using isArray) isClass]
        simp [super]

/-- The test decides subtyping, and the check of array stores that with the component
class. -/
theorem isInstanceOf_subtype (classes : CoreClasses) :
    (∀ target test, classes.isInstanceOf target test = true ↔ classes.Subtype test target) ∧
    (∀ test, classes.isInstanceOf test test = true) ∧
    (∀ first second third, classes.isInstanceOf second first = true →
      classes.isInstanceOf third second = true → classes.isInstanceOf third first = true) ∧
    ∀ elem test, classes.arrayStoreCheck (array elem) test = true ↔
      classes.Subtype test elem := by
  refine ⟨fun _ _ => isInstanceOf_iff, fun _ => isInstanceOf_iff.mpr .refl, ?_, ?_⟩
  · intro first second third lower upper
    rw [isInstanceOf_iff] at lower upper ⊢
    exact lower.trans upper
  · intro elem test
    rw [← subtype_array_iff, arrayStoreCheck]
    cases test with
    | loaded | primitive => exact isInstOfArray0_iff rfl rfl Nat.one_pos
    | array inner =>
      change classes.isInstOfArray0 (array elem) (array inner).elementClass
        ((array inner).dim + 1) = true ↔ _
      rw [isInstOfArray0_iff rfl (array inner).isArray_elementClass (Nat.succ_pos _), arrayOf,
        arrayOf_elementClass]

def sampleFiles : List ClassFile :=
  [⟨['O'], 0, false, none, [], []⟩, ⟨['C'], 0, true, some 0, [], []⟩,
    ⟨['S'], 0, true, some 0, [], []⟩, ⟨['I'], 0, true, some 0, [2], []⟩,
    ⟨['A'], 0, false, some 0, [3], []⟩, ⟨['B'], 0, false, some 4, [], []⟩]

def sampleClasses : CoreClasses where
  hierarchy := .ofFiles sampleFiles (by decide)
  object := 0
  cloneable := 1
  serializable := 2
  object_root := by decide
  cloneable_interface := by decide
  serializable_interface := by decide
  super_root target super mem := by
    have listed : ∀ target < sampleFiles.length, ∀ super ∈ (Hierarchy.listedFile sampleFiles
        target).super, (Hierarchy.listedFile sampleFiles super).super = none → super = 0 := by
      decide
    by_cases bound : target < sampleFiles.length
    · exact listed target bound super mem
    · cases (Hierarchy.listedFile_of_le (Nat.le_of_not_lt bound) ▸ mem :
        super ∈ Hierarchy.noClass.super)
  interfaces_super target := by
    have listed : ∀ target < sampleFiles.length, (Hierarchy.listedFile sampleFiles
        target).interfaces ≠ [] → (Hierarchy.listedFile sampleFiles target).super ≠ none := by
      decide
    by_cases bound : target < sampleFiles.length
    · exact listed target bound
    · intro some
      exact absurd (congrArg ClassFile.interfaces
        (Hierarchy.listedFile_of_le (Nat.le_of_not_lt bound))) some

/-- `B[][]` is an `I[][]` and a `Serializable[]`, can be stored in an `Object[]`, and an `I[][]`
is no `B[][]`. -/
theorem isInstanceOf_subtype_array :
    sampleClasses.isInstanceOf (array (array (loaded 3))) (array (array (loaded 5))) = true ∧
    sampleClasses.isInstanceOf (array (loaded 2)) (array (array (loaded 5))) = true ∧
    sampleClasses.arrayStoreCheck (array (loaded 0)) (array (array (loaded 5))) = true ∧
    sampleClasses.isInstanceOf (array (array (loaded 5))) (array (array (loaded 3))) = false := by
  obtain ⟨decides, -, -, stores⟩ := isInstanceOf_subtype sampleClasses
  have sub : sampleClasses.Subtype (loaded 5) (loaded 3) :=
    @Subtype.superclass _ _ (loaded 4) _ (by decide)
      (@Subtype.superinterface _ _ (loaded 3) _ (by decide) .refl)
  refine ⟨(decides _ _).mpr (.covariant (by simp) (.covariant (by simp) sub)), ?_, ?_, ?_⟩
  · exact (decides _ _).mpr (.covariant (by simp)
      (@Subtype.superinterface _ _ (loaded 2) _ (by decide) .refl))
  · exact (stores _ _).mpr (.superclass rfl .refl)
  · rw [Bool.eq_false_iff, Ne, decides, subtype_array_iff, subtype_array_iff,
      ← isSubClassOf_iff rfl (by decide)]
    decide

end CoreClasses

end JamVM.Class
