import JamVM.Class.Hierarchy

/-! # Linking

The method table and the interface table that `linkClass` builds for a class from
its class file and the tables of its superclass and interfaces. A class that does
not implement a method of one of its interfaces gets a Miranda method for it,
which bridges to the interface's method or, if unrelated interfaces have different
defaults, marks the conflict.
-/

namespace JamVM.Class

structure MethodRef where
  owner : Nat
  position : Nat
  deriving DecidableEq

/-- How a method block came to be. All but the declared ones are Mirandas, and a
conflict has `MB_DEFAULT_CONFLICT` set. -/
inductive Origin
  | declared
  | bridge (target : MethodRef)
  | conflict
  deriving DecidableEq

structure MethodBlock where
  owner : Nat
  position : Nat
  name : Utf8
  type : Utf8
  flags : AccessFlags
  initialiser : Bool
  methodTableIndex : Nat
  origin : Origin
  deriving DecidableEq

def MethodInfo.signature (method : MethodInfo) : Utf8 × Utf8 := (method.name, method.type)

def MethodBlock.signature (method : MethodBlock) : Utf8 × Utf8 := (method.name, method.type)

def MethodBlock.ref (method : MethodBlock) : MethodRef := ⟨method.owner, method.position⟩

def MethodBlock.isVirtual (method : MethodBlock) : Bool :=
  !(method.flags.isStatic || method.flags.isPrivate || method.initialiser)

def MethodBlock.info (method : MethodBlock) : MethodInfo :=
  ⟨method.name, method.type, method.flags, method.initialiser⟩

instance : Inhabited MethodBlock :=
  ⟨⟨0, 0, 0, 0, ⟨false, false, false, false, false⟩, false, 0, .declared⟩⟩

structure ITableEntry where
  interface : Nat
  offsets : List Nat
  deriving DecidableEq

structure ClassBlock where
  methods : List MethodBlock
  methodTable : List MethodBlock
  methodTableSize : Nat
  imethodTable : List ITableEntry
  deriving DecidableEq

instance : Inhabited ClassBlock := ⟨⟨[], [], 0, []⟩⟩

namespace Hierarchy

variable (hier : Hierarchy)

def checkMethodAccess (method : MethodBlock) (accessing : Nat) : Bool :=
  hier.checkMethodOrFieldAccess method.flags method.owner accessing

/-! ## The method table -/

variable (superTable : List MethodBlock)

def overridden (self : Nat) (method : MethodInfo) : Option MethodBlock :=
  superTable.find? fun inherited =>
    method.signature = inherited.signature && hier.checkMethodAccess inherited self

def declaredBlock (self position : Nat) (method : MethodInfo) (index : Nat) : MethodBlock where
  owner := self
  position := position
  name := method.name
  type := method.type
  flags := method.flags
  initialiser := method.initialiser
  methodTableIndex := index
  origin := .declared

def assignIndex (self newMethods : Nat) (method : MethodInfo) : Nat × Nat :=
  if method.isVirtual then
    match hier.overridden superTable self method with
    | some inherited => (inherited.methodTableIndex, newMethods)
    | none => (superTable.length + newMethods, newMethods + 1)
  else
    (0, newMethods)

def prepareMethods (self : Nat) :
    (position newMethods : Nat) → List MethodInfo → List MethodBlock × Nat
  | _, newMethods, [] => ([], newMethods)
  | position, newMethods, method :: rest =>
    let (index, newMethods) := hier.assignIndex superTable self newMethods method
    let (blocks, newMethods) := prepareMethods self (position + 1) newMethods rest
    (declaredBlock self position method index :: blocks, newMethods)

section
variable (table : List MethodBlock)

def fillinMTable (methods : List MethodBlock) : List MethodBlock :=
  methods.foldl (fun table method =>
    if method.isVirtual then table.set method.methodTableIndex method else table) table

/-! ## Interfaces and Miranda methods -/

variable (blocks : Nat → ClassBlock)

/-- The interfaces that a class adds to those of its superclass: each direct
interface followed by its superinterfaces. -/
def newInterfaces (self : Nat) : List Nat :=
  (hier.file self).interfaces.flatMap fun interface =>
    interface :: (blocks interface).imethodTable.map ITableEntry.interface

inductive Choice
  | keep
  | replace
  | conflict
  deriving DecidableEq

def chooseDefault (chosen : Nat) (chosenAbstract : Bool)
    (interface : Nat) (isAbstract : Bool) : Choice :=
  if chosenAbstract && isAbstract || chosen = interface || hier.implements interface chosen then
    .keep
  else if hier.implements chosen interface then
    .replace
  else
    .conflict

structure Miranda where
  method : MethodBlock
  index : Nat
  conflict : Bool

structure MirandaCache where
  mirandas : List Miranda
  newSlots : Nat

def lastEntry (signature : Utf8 × Utf8) : Option (MethodBlock × Nat) :=
  table.zipIdx.reverse.find? fun entry => signature = entry.1.signature

def Miranda.merge (miranda : Miranda) (interface : Nat) (method : MethodBlock) : Miranda :=
  if miranda.conflict then
    miranda
  else
    match hier.chooseDefault miranda.method.owner miranda.method.flags.isAbstract
        interface method.flags.isAbstract with
    | .keep => miranda
    | .replace => { miranda with method := method }
    | .conflict => { miranda with conflict := true }

structure InheritedMiranda where
  chosen : Nat
  isAbstract : Bool
  index : Nat

def MirandaCache.add (cache : MirandaCache) (miranda : Miranda) : MirandaCache :=
  { cache with mirandas := cache.mirandas ++ [miranda] }

def placeMiranda (tableSize interface : Nat) (method : MethodBlock)
    (inherited : Option InheritedMiranda) (cache : MirandaCache) : MirandaCache × Nat :=
  match cache.mirandas.zipIdx.find? fun cached => method.signature = cached.1.method.signature with
  | some (miranda, position) =>
    let merged := miranda.merge hier interface method
    ({ cache with mirandas := cache.mirandas.set position merged }, miranda.index)
  | none =>
    match inherited with
    | some inherited =>
      match hier.chooseDefault inherited.chosen inherited.isAbstract
          interface method.flags.isAbstract with
      | .keep => (cache, inherited.index)
      -- The new Miranda is an override and replaces the inherited one.
      | .replace => (cache.add ⟨method, inherited.index, false⟩, inherited.index)
      | .conflict => (cache.add ⟨method, inherited.index, true⟩, inherited.index)
    | none =>
      let index := tableSize + cache.newSlots
      ({ cache.add ⟨method, index, false⟩ with newSlots := cache.newSlots + 1 }, index)

def placeMethod (interface : Nat)
    (method : MethodBlock) (cache : MirandaCache) : MirandaCache × Nat :=
  match lastEntry table method.signature with
  | some (entry, index) =>
    match entry.origin with
    | .declared | .conflict => (cache, index)
    | .bridge target =>
      hier.placeMiranda table.length interface method
        (some ⟨target.owner, entry.flags.isAbstract, index⟩) cache
  | none => hier.placeMiranda table.length interface method none cache

def placeMethods (interface : Nat) : List MethodBlock → MirandaCache → MirandaCache × List Nat
  | [], cache => (cache, [])
  | method :: rest, cache =>
    if method.isVirtual then
      let (cache, index) := hier.placeMethod table interface method cache
      let (cache, offsets) := placeMethods interface rest cache
      (cache, index :: offsets)
    else
      placeMethods interface rest cache

end

variable (blocks : Nat → ClassBlock)

def placeInterfaces (table : List MethodBlock) :
    List Nat → MirandaCache → MirandaCache × List ITableEntry
  | [], cache => (cache, [])
  | interface :: rest, cache =>
    let (cache, offsets) := hier.placeMethods table interface (blocks interface).methods cache
    let (cache, entries) := placeInterfaces table rest cache
    (cache, ⟨interface, offsets⟩ :: entries)

def mirandaBlock (self position : Nat) (miranda : Miranda) : MethodBlock where
  owner := self
  position := position
  name := miranda.method.name
  type := miranda.method.type
  flags := miranda.method.flags
  initialiser := miranda.method.initialiser
  methodTableIndex := miranda.index
  origin := if miranda.conflict then .conflict else .bridge miranda.method.ref

def mirandaBlocks (self position : Nat) : List Miranda → List MethodBlock
  | [] => []
  | miranda :: rest => mirandaBlock self position miranda :: mirandaBlocks self (position + 1) rest

def installMirandas (table : List MethodBlock) (mirandas : List MethodBlock) :
    List MethodBlock :=
  mirandas.foldl (fun table miranda => table.set miranda.methodTableIndex miranda) table

/-! ## Linking a class -/

def linkedSuper (self : Nat) : Option Nat :=
  if (hier.file self).isInterface then none else (hier.file self).super

def inheritedBlock (self : Nat) : ClassBlock :=
  match hier.linkedSuper self with
  | some super => blocks super
  | none => default

def declaredTable (prepared : List MethodBlock × Nat) : List MethodBlock :=
  fillinMTable (superTable ++ List.replicate prepared.2 default) prepared.1

def linkClass (self : Nat) : ClassBlock :=
  let inherited := hier.inheritedBlock blocks self
  let prepared := hier.prepareMethods inherited.methodTable self 0 0 (hier.file self).methods
  let interfaces := hier.newInterfaces blocks self
  if (hier.file self).isInterface then
    -- The offsets of an interface are not used.
    { methods := prepared.1
      methodTable := []
      methodTableSize := inherited.methodTable.length + prepared.2
      imethodTable := inherited.imethodTable ++ interfaces.map fun interface => ⟨interface, []⟩ }
  else
    let table := declaredTable inherited.methodTable prepared
    let (cache, entries) := hier.placeInterfaces blocks table interfaces ⟨[], 0⟩
    let mirandas := mirandaBlocks self prepared.1.length cache.mirandas
    { methods := prepared.1 ++ mirandas
      methodTable := installMirandas (table ++ List.replicate cache.newSlots default) mirandas
      methodTableSize := table.length + cache.newSlots
      imethodTable := inherited.imethodTable ++ entries }

def linkUpTo : Nat → Nat → ClassBlock
  | 0 => fun _ => default
  | count + 1 => Function.update (linkUpTo count) count
      (hier.linkClass (linkUpTo count) count)

def link (self : Nat) : ClassBlock := linkUpTo hier (self + 1) self

end Hierarchy

end JamVM.Class
