import JamVM.Class.ConstantPool

/-! # Annotations

Annotations are skipped when a class is parsed and parsed when they are asked for. Both walk
over the same nested encoding; `depth` bounds the nesting of their calls. Whatever the heap
and the class library do for the parser is a change of an abstract `World`.
-/

namespace JamVM.Class.Annotations

open List (append_assoc cons_append length_append)

def ascii (c : Char) : BitVec 8 := BitVec.ofNat 8 c.toNat

def constantTags : List (BitVec 8) := ['Z', 'B', 'C', 'S', 'I', 'F', 'J', 'D', 's', 'c'].map ascii

/-! ## Skipping -/

def times (body : List (BitVec 8) → Except Failure (List (BitVec 8))) :
    Nat → List (BitVec 8) → Except Failure (List (BitVec 8))
  | 0, data => .ok data
  | count + 1, data => body data >>= times body count

mutual

def skipElementValue : Nat → List (BitVec 8) → Except Failure (List (BitVec 8))
  | 0, _ => .error .undefined
  | depth + 1, data => do
    let (tag, data) ← readU1 data
    if tag = ascii 'e' then
      .ok (data.drop 4)
    else if tag ∈ constantTags then
      .ok (data.drop 2)
    else if tag = ascii '@' then
      skipAnnotation depth data
    else if tag = ascii '[' then
      let (numValues, data) ← readU2 data
      times (skipElementValue depth) numValues.toNat data
    else
      .ok data

def skipAnnotation : Nat → List (BitVec 8) → Except Failure (List (BitVec 8))
  | 0, _ => .error .undefined
  | depth + 1, data => do
    let (noValuePairs, data) ← readU2 (data.drop 2)
    times (fun data => skipElementValue depth (data.drop 2)) noValuePairs.toNat data

end

def annotationTypes (depth : Nat) : Nat → List (BitVec 8) → Except Failure (List (BitVec 32))
  | 0, _ => .ok []
  | count + 1, data => do
    let next ← skipAnnotation depth data
    let (typeIdx, _) ← readU2 data
    let types ← annotationTypes depth count next
    .ok (typeIdx :: types)

def parseMethodAnnotations (depth : Nat) (data : List (BitVec 8)) :
    Except Failure (List (BitVec 32)) := do
  let (noAnnos, data) ← readU2 data
  annotationTypes depth noAnnos.toNat data

/-! ## Parsing -/

/-- The calls of the parser. Those that may fail or raise an exception have an optional
result; strings, classes and constants are given by their indices. -/
structure Library (World Object : Type) where
  createWrapperObject : Nat → BitVec 32 → World → Option Object × World
  createString : BitVec 32 → World → Option Object × World
  findClassFromSignature : BitVec 32 → World → Option Object × World
  enumValueOf : Object → Object → World → Option Object × World
  allocArray : BitVec 32 → World → Option Object × World
  setElement : Object → Nat → Object → World → World
  newMap : World → Option Object × World
  putMap : Object → Object → Object → World → Option Unit × World
  createAnnotation : Object → Object → World → Option Object × World

abbrev Parse (World : Type) := OptionT (StateT (List (BitVec 8) × World) (Except Failure))

variable {World Object α β : Type}

def read (reader : List (BitVec 8) → Read α) : Parse World α := fun (data, world) => do
  let (value, data) ← reader data
  .ok (some value, data, world)

def attempt (call : World → Option α × World) : Parse World (Option α) := fun (data, world) =>
  .ok (some (call world).1, data, (call world).2)

def call (routine : World → Option α × World) : Parse World α := fun (data, world) =>
  .ok ((routine world).1, data, (routine world).2)

def write (change : World → World) : Parse World Unit := fun (data, world) =>
  .ok (some (), data, change world)

def primTypeNo (tag : BitVec 8) : Nat :=
  ((['Z', 'B', 'C', 'S', 'I', 'F', 'J', 'D'].map ascii).idxOf? tag).elim 0 (· + 1)

def forFrom (body : Nat → Parse World Unit) : Nat → Nat → Parse World Unit
  | _, 0 => pure ()
  | i, count + 1 => do
    body i
    forFrom body (i + 1) count

mutual

def parseElementValue (library : Library World Object) : Nat → Parse World Object
  | 0 => fun _ => .error .undefined
  | depth + 1 => do
    let tag ← read readU1
    if tag = ascii 's' then
      let constStrIdx ← read readU2
      call (library.createString constStrIdx)
    else if tag = ascii 'e' then
      let typeNameIdx ← read readU2
      let constNameIdx ← read readU2
      let typeClass ← attempt (library.findClassFromSignature typeNameIdx)
      let constName ← attempt (library.createString constNameIdx)
      match typeClass, constName with
      | some typeClass, some constName => call (library.enumValueOf typeClass constName)
      | _, _ => failure
    else if tag = ascii 'c' then
      let classInfoIdx ← read readU2
      call (library.findClassFromSignature classInfoIdx)
    else if tag = ascii '@' then
      parseAnnotation library depth
    else if tag = ascii '[' then
      let numValues ← read readU2
      let array ← call (library.allocArray numValues)
      forFrom (fun i => do
        let value ← parseElementValue library depth
        write (library.setElement array i value)) 0 numValues.toNat
      pure array
    else
      let constValIdx ← read readU2
      call (library.createWrapperObject (primTypeNo tag) constValIdx)

def parseAnnotation (library : Library World Object) : Nat → Parse World Object
  | 0 => fun _ => .error .undefined
  | depth + 1 => do
    let map ← call library.newMap
    let typeIdx ← read readU2
    let typeClass ← call (library.findClassFromSignature typeIdx)
    let noValuePairs ← read readU2
    forFrom (fun _ => do
      let elementNameIdx ← read readU2
      let elementName ← attempt (library.createString elementNameIdx)
      let elementValue ← parseElementValue library depth
      match elementName with
      | some elementName => call (library.putMap map elementName elementValue)
      | none => failure) 0 noValuePairs.toNat
    call (library.createAnnotation typeClass map)

end

/-! ## The class-file format -/

inductive Part
  | elementValue
  | annotated (type : BitVec 16)
  | values (count : Nat)
  | pairs (count : Nat)

inductive Encodes : Part → List (BitVec 8) → Prop
  | constant {tag : BitVec 8} (index : BitVec 16) : tag ∈ constantTags →
      Encodes .elementValue (tag :: bytes2 index)
  | enum (type name : BitVec 16) : Encodes .elementValue (ascii 'e' :: (bytes2 type ++ bytes2 name))
  | nested {type : BitVec 16} {bytes : List (BitVec 8)} : Encodes (.annotated type) bytes →
      Encodes .elementValue (ascii '@' :: bytes)
  | array {count : BitVec 16} {bytes : List (BitVec 8)} : Encodes (.values count.toNat) bytes →
      Encodes .elementValue (ascii '[' :: (bytes2 count ++ bytes))
  | annotated {type count : BitVec 16} {bytes : List (BitVec 8)} :
      Encodes (.pairs count.toNat) bytes →
      Encodes (.annotated type) (bytes2 type ++ (bytes2 count ++ bytes))
  | noValues : Encodes (.values 0) []
  | value {count : Nat} {first bytes : List (BitVec 8)} : Encodes .elementValue first →
      Encodes (.values count) bytes → Encodes (.values (count + 1)) (first ++ bytes)
  | noPairs : Encodes (.pairs 0) []
  | pair {count : Nat} {name : BitVec 16} {first bytes : List (BitVec 8)} :
      Encodes .elementValue first → Encodes (.pairs count) bytes →
      Encodes (.pairs (count + 1)) (bytes2 name ++ (first ++ bytes))

/-! ## Consumed bytes -/

/-- The parser comes to an end behind the bytes, and returns a value with the property or
`NULL`. -/
def Consumes (parse : Parse World α) (bytes : List (BitVec 8)) (holds : α → Prop) : Prop :=
  ∀ rest world, ∃ res data changed, parse (bytes ++ rest, world) = .ok (res, data, changed) ∧
    ∀ value ∈ res, data = rest ∧ holds value

namespace Consumes

variable {parse : Parse World α} {bytes more : List (BitVec 8)} {holds : α → Prop}

theorem bind (first : Consumes parse bytes holds)
    (second : ∀ value, holds value → Consumes (next value) more also) :
    Consumes (parse >>= next) (bytes ++ more) also := by
  intro rest world
  obtain ⟨res, data, changed, parsed, post⟩ := first (more ++ rest) world
  rw [← append_assoc] at parsed
  cases res with
  | none =>
    refine ⟨none, data, changed, ?_, by simp⟩
    simp only [Bind.bind, OptionT.bind, OptionT.mk, StateT.bind, parsed]
    rfl
  | some value =>
    obtain ⟨rfl, known⟩ := post value rfl
    obtain ⟨res, data, last, parsed', after'⟩ := second value known rest changed
    refine ⟨res, data, last, ?_, after'⟩
    simp only [Bind.bind, OptionT.bind, OptionT.mk, StateT.bind, parsed]
    exact parsed'

theorem bind_pure (first : Consumes parse bytes holds)
    (second : ∀ value, holds value → Consumes (next value) [] also) :
    Consumes (parse >>= next) bytes also := by
  simpa using first.bind second

theorem pure (value : α)
    (known : holds value) : Consumes (Pure.pure value : Parse World α) [] holds :=
  fun rest world => ⟨some value, rest, world, rfl, by simpa using known⟩

theorem failure : Consumes (Alternative.failure : Parse World α) [] holds :=
  fun rest world => ⟨none, rest, world, rfl, by simp⟩

theorem call (routine : World → Option α × World) :
    Consumes (Annotations.call routine) [] fun _ => True :=
  fun rest world => ⟨(routine world).1, rest, (routine world).2, rfl, by simp⟩

theorem attempt (routine : World → Option α × World) :
    Consumes (Annotations.attempt routine) [] fun _ => True :=
  fun rest world => ⟨some (routine world).1, rest, (routine world).2, rfl, by simp⟩

theorem write (change : World → World) : Consumes (Annotations.write change) [] fun _ => True :=
  fun rest world => ⟨some (), rest, change world, rfl, by simp⟩

theorem readU1 (tag : BitVec 8) : Consumes (read Class.readU1 : Parse World _) [tag] (· = tag) :=
  fun rest world => ⟨some tag, rest, world, rfl, by simp⟩

theorem readU2 (index : BitVec 16) :
    Consumes (read Class.readU2 : Parse World _) (bytes2 index) (· = index.setWidth 32) := by
  intro rest world
  refine ⟨some (index.setWidth 32), rest, world, ?_, by simp⟩
  simp only [read, readU2_bytes2]
  rfl

end Consumes

def Agree (library : Library World Object) : Part → List (BitVec 8) → Prop
  | .elementValue, bytes => ∀ depth, bytes.length ≤ depth →
    (∀ rest, skipElementValue depth (bytes ++ rest) = .ok rest) ∧
      Consumes (parseElementValue library depth) bytes fun _ => True
  | .annotated _, bytes => ∀ depth, bytes.length ≤ depth →
    (∀ rest, skipAnnotation depth (bytes ++ rest) = .ok rest) ∧
      Consumes ( parseAnnotation library depth) bytes fun _ => True
  | .values count, bytes => ∀ depth, bytes.length ≤ depth →
    (∀ rest, times (skipElementValue depth) count (bytes ++ rest) = .ok rest) ∧
      ∀ array i, Consumes (forFrom (fun i => do
        let value ← parseElementValue library depth
        write (library.setElement array i value)) i count) bytes fun _ => True
  | .pairs count, bytes => ∀ depth, bytes.length ≤ depth →
    (∀ rest, times (fun data => skipElementValue depth (data.drop 2)) count (bytes ++ rest) =
      .ok rest) ∧
      ∀ map i, Consumes (forFrom (fun _ => do
        let elementNameIdx ← read readU2
        let elementName ← attempt (library.createString elementNameIdx)
        let elementValue ← parseElementValue library depth
        match elementName with
        | some elementName => call (library.putMap map elementName elementValue)
        | none => failure) i count) bytes fun _ => True

theorem constantTags_ne (known : tag ∈ constantTags) :
    tag ≠ ascii 'e' ∧ tag ≠ ascii '@' ∧ tag ≠ ascii '[' := by
  revert tag
  decide

theorem drop_bytes2 (index : BitVec 16) (rest : List (BitVec 8)) :
    (bytes2 index ++ rest).drop 2 = rest := rfl

theorem toNat_count (count : BitVec 16) : (count.setWidth 32).toNat = count.toNat :=
  BitVec.toNat_setWidth_of_le (by decide)

theorem skipElementValue_cons (depth : Nat) (tag : BitVec 8) (data : List (BitVec 8)) :
    skipElementValue (depth + 1) (tag :: data) =
      if tag = ascii 'e' then .ok (data.drop 4)
      else if tag ∈ constantTags then .ok (data.drop 2)
      else if tag = ascii '@' then skipAnnotation depth data
      else if tag = ascii '[' then do
        let (numValues, data) ← readU2 data
        times (skipElementValue depth) numValues.toNat data
      else .ok data := rfl

theorem skipAnnotation_bytes2 (depth : Nat) (type count : BitVec 16) (data : List (BitVec 8)) :
    skipAnnotation (depth + 1) (bytes2 type ++ (bytes2 count ++ data)) =
      times (fun data => skipElementValue depth (data.drop 2)) count.toNat data := by
  unfold skipAnnotation
  rw [drop_bytes2, readU2_bytes2, ← toNat_count count]
  rfl

theorem Encodes.agree (library : Library World Object)
    (encodes : Encodes part bytes) : Agree library part bytes := by
  induction encodes with
  | @constant tag index known =>
    rintro (_ | depth) enough
    · simp at enough
    · obtain ⟨notEnum, notNested, notArray⟩ := constantTags_ne known
      refine ⟨fun rest => ?_, ?_⟩
      · rw [cons_append, skipElementValue_cons, if_neg notEnum, if_pos known, drop_bytes2]
      · rw [parseElementValue]
        refine (Consumes.readU1 tag).bind fun _ isTag => ?_
        rw [isTag, if_neg notEnum, if_neg notNested, if_neg notArray]
        split_ifs <;> exact (Consumes.readU2 index).bind_pure fun _ _ => .call _
  | enum type name =>
    rintro (_ | depth) enough
    · simp at enough
    · refine ⟨fun rest => ?_, ?_⟩
      · rw [cons_append, skipElementValue_cons, if_pos rfl]
        rfl
      · rw [parseElementValue]
        refine (Consumes.readU1 (ascii 'e')).bind fun _ isTag => ?_
        rw [isTag, if_neg (by decide), if_pos rfl]
        refine (Consumes.readU2 type).bind fun _ _ => ?_
        refine (Consumes.readU2 name).bind_pure fun _ _ => ?_
        refine (Consumes.attempt _).bind fun typeClass _ => ?_
        refine (Consumes.attempt _).bind fun constName _ => ?_
        split
        · exact .call _
        · exact .failure
  | nested _ ih =>
    rintro (_ | depth) enough
    · simp at enough
    · obtain ⟨skips, parses⟩ := ih depth (by simpa using enough)
      refine ⟨fun rest => ?_, ?_⟩
      · exact skips rest
      · rw [parseElementValue]
        refine (Consumes.readU1 (ascii '@')).bind fun _ isTag => ?_
        rw [isTag, if_neg (by decide), if_neg (by decide), if_neg (by decide), if_pos rfl]
        exact parses
  | @array count bytes _ ih =>
    rintro (_ | depth) enough
    · simp at enough
    · obtain ⟨skips, parses⟩ := ih depth (by simp [bytes2] at enough; omega)
      refine ⟨fun rest => ?_, ?_⟩
      · rw [cons_append, skipElementValue_cons, if_neg (by decide), if_neg (by decide),
          if_neg (by decide), if_pos rfl, append_assoc, readU2_bytes2]
        exact (congrArg (times _ · _) (toNat_count count)).trans (skips rest)
      · rw [parseElementValue]
        refine (Consumes.readU1 (ascii '[')).bind fun _ isTag => ?_
        rw [isTag, if_neg (by decide), if_neg (by decide), if_neg (by decide), if_neg (by decide),
          if_pos rfl]
        refine (Consumes.readU2 count).bind fun _ isCount => ?_
        refine (Consumes.call _).bind fun array _ => ?_
        rw [isCount, toNat_count]
        exact (parses array 0).bind_pure fun _ _ => .pure array trivial
  | @annotated type count bytes _ ih =>
    rintro (_ | depth) enough
    · simp [bytes2] at enough
    · obtain ⟨skips, parses⟩ := ih depth (by simp [bytes2] at enough; omega)
      refine ⟨fun rest => ?_, ?_⟩
      · rw [append_assoc, append_assoc, skipAnnotation_bytes2]
        exact skips rest
      · unfold parseAnnotation
        refine (Consumes.call _).bind fun map _ => ?_
        refine (Consumes.readU2 type).bind fun _ _ => ?_
        refine (Consumes.call _).bind fun typeClass _ => ?_
        refine (Consumes.readU2 count).bind fun _ isCount => ?_
        rw [isCount, toNat_count]
        exact (parses map 0).bind_pure fun _ _ => .call _
  | noValues | noPairs => exact fun depth _ => ⟨fun _ => rfl, fun _ _ => .pure () trivial⟩
  | value _ _ first rest =>
    intro depth enough
    rw [length_append] at enough
    obtain ⟨skips, parses⟩ := first depth (by omega)
    obtain ⟨skipRest, parseRest⟩ := rest depth (by omega)
    refine ⟨fun rest => ?_, fun array i => ?_⟩
    · rw [append_assoc, times, skips]
      exact skipRest rest
    · rw [forFrom]
      exact (parses.bind_pure fun _ _ => .write _).bind fun _ _ => parseRest array (i + 1)
  | @pair count name first bytes _ _ value rest =>
    intro depth enough
    simp only [length_append] at enough
    obtain ⟨skips, parses⟩ := value depth (by omega)
    obtain ⟨skipRest, parseRest⟩ := rest depth (by omega)
    refine ⟨fun rest => ?_, fun map i => ?_⟩
    · rw [append_assoc, times, drop_bytes2, append_assoc, skips]
      exact skipRest rest
    · rw [forFrom, ← append_assoc]
      refine Consumes.bind ?_ fun _ (_ : True) => parseRest map (i + 1)
      refine (Consumes.readU2 name).bind fun _ _ => ?_
      refine (Consumes.attempt _).bind fun elementName _ => ?_
      refine parses.bind_pure fun elementValue _ => ?_
      cases elementName with
      | none => exact .failure
      | some => exact .call _

inductive EncodesAll : List (BitVec 16) → List (BitVec 8) → Prop
  | nil : EncodesAll [] []
  | cons {type : BitVec 16} {types : List (BitVec 16)} {first bytes : List (BitVec 8)} :
      Encodes (.annotated type) first → EncodesAll types bytes →
      EncodesAll (type :: types) (first ++ bytes)

theorem Encodes.type_eq
    (encodes : Encodes (.annotated type) bytes) : ∃ tail, bytes = bytes2 type ++ tail := by
  cases encodes
  exact ⟨_, rfl⟩

def poorLibrary : Library Unit Unit :=
  ⟨fun _ _ _ => (none, ()), fun _ _ => (none, ()), fun _ _ => (none, ()), fun _ _ _ => (none, ()),
    fun _ _ => (none, ()), fun _ _ _ _ => (), fun _ => (none, ()), fun _ _ _ _ => (none, ()),
    fun _ _ _ => (none, ())⟩

theorem EncodesAll.annotationTypes_eq
    (encodes : EncodesAll types bytes) (enough : bytes.length ≤ depth)
    (rest : List (BitVec 8)) :
    annotationTypes depth types.length (bytes ++ rest) = .ok (types.map (·.setWidth 32)) := by
  induction encodes with
  | nil => rfl
  | @cons type types first bytes encodes _ ih =>
    rw [length_append] at enough
    have skipped := (encodes.agree poorLibrary depth (by omega)).1 (bytes ++ rest)
    obtain ⟨tail, rfl⟩ := encodes.type_eq
    rw [List.length_cons, annotationTypes, append_assoc, skipped, append_assoc, readU2_bytes2]
    simp only [Except.bind, Bind.bind, ih (by omega), List.map_cons]

/-- Skipping and parsing consume the encoding of an annotation or element value, and
`parseMethodAnnotations` finds the types of the annotations in their order. -/
theorem annotations_consumed (library : Library World Object) :
    (∀ bytes depth, Encodes .elementValue bytes → bytes.length ≤ depth →
      (∀ rest, skipElementValue depth (bytes ++ rest) = .ok rest) ∧
        Consumes (parseElementValue library depth) bytes fun _ => True) ∧
    (∀ type bytes depth, Encodes (.annotated type) bytes → bytes.length ≤ depth →
      (∀ rest, skipAnnotation depth (bytes ++ rest) = .ok rest) ∧
        Consumes ( parseAnnotation library depth) bytes fun _ => True) ∧
    ∀ types bytes depth rest, EncodesAll types bytes → types.length < 2 ^ 16 →
      bytes.length ≤ depth →
      parseMethodAnnotations depth (bytes2 (BitVec.ofNat 16 types.length) ++ (bytes ++ rest)) =
        .ok (types.map (·.setWidth 32)) := by
  refine ⟨fun bytes depth encodes => encodes.agree library depth,
    fun type bytes depth encodes => encodes.agree library depth, ?_⟩
  intro types bytes depth rest encodes few enough
  rw [parseMethodAnnotations, readU2_bytes2]
  have count : ((BitVec.ofNat 16 types.length).setWidth 32).toNat = types.length := by
    rw [toNat_count, BitVec.toNat_ofNat, Nat.mod_eq_of_lt few]
  exact (congrArg (annotationTypes depth · _) count).trans (encodes.annotationTypes_eq enough rest)

/-- An annotation of type 7 with an array of a string and another annotation. -/
theorem annotations_consumed_nested :
    let bytes := bytes2 7 ++ (bytes2 1 ++ (bytes2 3 ++ ((ascii '[' :: (bytes2 2 ++
      ((ascii 's' :: bytes2 4) ++ ((ascii '@' :: (bytes2 5 ++ (bytes2 0 ++ []))) ++ [])))) ++ [])))
    skipAnnotation 30 (bytes ++ [1]) = .ok [1] ∧
      parseMethodAnnotations 30 (bytes2 1 ++ ((bytes ++ []) ++ [1])) = .ok [7] := by
  intro bytes
  have encodes : Encodes (.annotated 7) bytes :=
    .annotated (.pair (.array (.value (.constant 4 (by decide)) (.value
      (.nested (.annotated .noPairs)) .noValues))) .noPairs)
  obtain ⟨-, skips, types⟩ := annotations_consumed poorLibrary
  exact ⟨(skips 7 bytes 30 encodes (by decide)).1 [1],
    types [7] (bytes ++ []) 30 [1] (.cons encodes .nil) (by decide) (by decide)⟩

end JamVM.Class.Annotations
