import JamVM.Class.Hierarchy

/-! # Runtime packages

The comparison of two classes' packages by their names in memory, for all classes that the VM
can have, among them arrays and anonymous classes.
-/

namespace JamVM.Class.RuntimePackage

open Hierarchy (packageName stripCommon stripCommon_slash_iff)

/-- `elementClass` is the class of the elements of an array class. -/
structure ClassBlock where
  name : List Char
  classLoader : Nat
  elementClass : Option Nat

def skipEqual : List Char → List Char → Option (List Char × List Char)
  | [], [] => none
  | ptr1 :: rest1, ptr2 :: rest2 =>
    if ptr1 = ptr2 then skipEqual rest1 rest2 else some (ptr1 :: rest1, ptr2 :: rest2)
  | rest1, rest2 => some (rest1, rest2)

section
variable (cb : Nat → ClassBlock)

def elementOf (target : Nat) : Nat := (cb target).elementClass.getD target

/-- `none` is a read past the end of a name. -/
def isSameRuntimePackage (class1 class2 : Nat) : Option Bool :=
  if class1 ≠ class2 then
    if (cb class1).classLoader ≠ (cb class2).classLoader then
      some false
    else if elementOf cb class1 ≠ elementOf cb class2 then
      (skipEqual (cb (elementOf cb class1)).name (cb (elementOf cb class2)).name).map fun rest =>
        '/' ∉ rest.1 ∧ '/' ∉ rest.2
    else
      some true
  else
    some true

def runtimePackage (target : Nat) : Nat × List Char :=
  ((cb target).classLoader, packageName (cb (elementOf cb target)).name)

/-- Element classes with the same name are the same, if the loaders are. -/
def Distinguished (class1 class2 : Nat) : Prop :=
  (cb class1).classLoader = (cb class2).classLoader →
    (cb (elementOf cb class1)).name = (cb (elementOf cb class2)).name →
    elementOf cb class1 = elementOf cb class2

end

theorem skipEqual_eq (differ : name1 ≠ name2) :
    skipEqual name1 name2 = some (stripCommon name1 name2) := by
  fun_induction skipEqual name1 name2 with
  | case1 => exact absurd rfl differ
  | case2 letter rest rest' ih =>
    rw [stripCommon, if_pos rfl]
    exact ih fun equal => differ (by rw [equal])
  | case3 letter rest letter' rest' other => rw [stripCommon, if_neg other]
  | case4 rest rest' =>
    rw [stripCommon]
    assumption

theorem skipEqual_self (name : List Char) : skipEqual name name = none := by
  induction name with
  | nil => rfl
  | cons letter rest ih => rw [skipEqual, if_pos rfl, ih]

variable {cb : Nat → ClassBlock}

theorem isSameRuntimePackage_eq (distinct : Distinguished cb class1 class2) :
    isSameRuntimePackage cb class1 class2 =
      some (decide (runtimePackage cb class1 = runtimePackage cb class2)) := by
  unfold isSameRuntimePackage
  split_ifs with other loaders elements
  · simp [runtimePackage, loaders]
  · have differ : (cb (elementOf cb class1)).name ≠ (cb (elementOf cb class2)).name :=
      fun equal => elements (distinct (not_not.mp loaders) equal)
    rw [skipEqual_eq differ, Option.map_some, Option.some.injEq, decide_eq_decide,
      stripCommon_slash_iff, runtimePackage, runtimePackage, Prod.mk.injEq]
    exact (and_iff_right (not_not.mp loaders)).symm
  · simp [runtimePackage, not_not.mp loaders, not_not.mp elements]
  · simp [not_not.mp other]

theorem isSameRuntimePackage_eq_none (twins : ¬ Distinguished cb class1 class2) :
    isSameRuntimePackage cb class1 class2 = none := by
  simp only [Distinguished, Classical.not_imp] at twins
  obtain ⟨loaders, names, elements⟩ := twins
  have other : class1 ≠ class2 := fun equal => elements (congrArg (elementOf cb) equal)
  rw [isSameRuntimePackage, if_pos other, if_neg (not_not.mpr loaders), if_pos elements, names,
    skipEqual_self, Option.map_none]

/-- The packages of two classes are compared as they should be unless their element classes have
one name and loader. Where there are no such classes, it is an equivalence. -/
theorem isSameRuntimePackage_exact (cb : Nat → ClassBlock) :
    (∀ class1 class2, isSameRuntimePackage cb class1 class2 =
        some (decide (runtimePackage cb class1 = runtimePackage cb class2)) ↔
      Distinguished cb class1 class2) ∧
    ((∀ class1 class2, Distinguished cb class1 class2) →
      Equivalence fun class1 class2 => isSameRuntimePackage cb class1 class2 = some true) := by
  refine ⟨fun class1 class2 => ⟨fun same => ?_, isSameRuntimePackage_eq⟩, fun distinct => ?_⟩
  · by_contra twins
    cases (isSameRuntimePackage_eq_none twins).symm.trans same
  · simp only [isSameRuntimePackage_eq (distinct _ _), Option.some.injEq, decide_eq_true_eq]
    exact ⟨fun _ => rfl, Eq.symm, Eq.trans⟩

/-- Two classes of one package and an array class, a class of another package and one of another
loader, an anonymous class, and classes with names of their own. -/
def sampleClasses (target : Nat) : ClassBlock :=
  [⟨"p/A".toList, 0, none⟩, ⟨"p/B".toList, 0, none⟩, ⟨"[[Lp/A;".toList, 0, some 0⟩,
    ⟨"p/q/A".toList, 0, none⟩, ⟨"p/A".toList, 1, none⟩, ⟨"p/A".toList, 0, none⟩].getD target
      ⟨[], 2, none⟩

/-- The anonymous class is compared rightly with all classes but the one whose name it has and
the array class. -/
theorem isSameRuntimePackage_exact_sample :
    isSameRuntimePackage sampleClasses 2 1 = some true ∧
    isSameRuntimePackage sampleClasses 2 3 = some false ∧
    isSameRuntimePackage sampleClasses 0 4 = some false ∧
    isSameRuntimePackage sampleClasses 5 1 = some true ∧
    isSameRuntimePackage sampleClasses 5 2 ≠ some true := by
  have exact := (isSameRuntimePackage_exact sampleClasses).1
  unfold Distinguished at exact
  refine ⟨(exact 2 1).mpr (by decide), (exact 2 3).mpr (by decide),
    (exact 0 4).mpr (by decide), (exact 5 1).mpr (by decide), ?_⟩
  exact (exact 5 2).not.mpr (by decide)

/-- An anonymous class with the name of another class of its host's loader. -/
theorem isSameRuntimePackage_anonymous :
    isSameRuntimePackage (fun _ => ⟨"p/A".toList, 0, none⟩) 0 1 = none := by
  decide

/-! ## Hierarchies -/

def ofHierarchy (hier : Hierarchy) (target : Nat) : ClassBlock :=
  ⟨(hier.file target).name, (hier.file target).loader, none⟩

theorem isSameRuntimePackage_ofHierarchy (hier : Hierarchy)
    (distinct : Distinguished (ofHierarchy hier) class1 class2) :
    isSameRuntimePackage (ofHierarchy hier) class1 class2 =
      some (hier.isSameRuntimePackage class1 class2) := by
  rw [isSameRuntimePackage_eq distinct, Option.some.injEq, Bool.eq_iff_iff, decide_eq_true_eq,
    hier.isSameRuntimePackage_iff, runtimePackage, runtimePackage, Prod.mk.injEq]
  rfl

end JamVM.Class.RuntimePackage
