import Mathlib.Data.List.Chain
import Mathlib.Data.List.Nodup
import JamVM.Text.Utf8Table

/-! # Native methods of Amiga libraries

A library comes with a table of its methods. `nativeLibOpen` mangles each class,
method name and parameter list as one text; the virtual machine mangles them one
by one and looks the result up in the table. C strings are lists of bytes without
the final NUL.
-/

namespace JamVM.Amiga

open BitVec (le_def ofNat toNat_inj)
open List JamVM.Text Option

def byte (c : Char) : BitVec 8 := ofNat 8 c.toNat

def unit (c : Char) : BitVec 16 := ofNat 16 c.toNat

/-! ## Mangling -/

def isDigit (c : BitVec 16) : Bool := unit '0' ≤ c && c ≤ unit '9'

def isAlnum (c : BitVec 16) : Bool :=
  isDigit c || (unit 'A' ≤ c && c ≤ unit 'Z') || (unit 'a' ≤ c && c ≤ unit 'z')

def hexDigit (value : Nat) : BitVec 8 :=
  if value < 10 then ofNat 8 (0x30 + value) else ofNat 8 (0x57 + value)

def mangleChar (c : BitVec 16) : List (BitVec 8) :=
  if c = unit '_' then [byte '_', byte '1']
  else if c = unit ';' then [byte '_', byte '2']
  else if c = unit '[' then [byte '_', byte '3']
  else if c = unit '/' then [byte '_']
  else if isAlnum c then [c.setWidth 8]
  else
    [byte '_', byte '0', hexDigit (c.toNat / 4096), hexDigit (c.toNat / 256 % 16),
      hexDigit (c.toNat / 16 % 16), hexDigit (c.toNat % 16)]

def mangle (unicode : List (BitVec 16)) : List (BitVec 8) := unicode.flatMap mangleChar

def mangleString (signed : Bool) (utf8 : List (BitVec 8)) : Option (List (BitVec 8)) :=
  (convertUtf8 signed (utf8 ++ [0])).map mangle

/-- What stands before the last `c`. Without one the search leaves the text. -/
def beforeLast (c : BitVec 8) (text : List (BitVec 8)) : Option (List (BitVec 8)) :=
  match text.reverse.dropWhile (· ≠ c) with
  | [] => none
  | _ :: pre => some pre.reverse

def mangleClassAndMethodName (signed : Bool) (className name : List (BitVec 8)) :
    Option (List (BitVec 8)) :=
  mangleString signed (['J', 'a', 'v', 'a', '/'].map byte ++ className ++ byte '/' :: name)

def mangleSignature (signed : Bool) (type : List (BitVec 8)) : Option (List (BitVec 8)) :=
  (beforeLast (byte ')') type).bind fun pre => mangleString signed (pre.drop 1)

/-! ## The library -/

structure NativeMethod (Fn : Type u) where
  className : List (BitVec 8)
  methodName : List (BitVec 8)
  methodDescriptor : List (BitVec 8)
  fnPtr : Fn

structure NativeMethodSymbol (Fn : Type u) where
  symbolName : List (BitVec 8)
  fnPtr : Fn

variable {Fn : Type u}

def NativeMethod.tempName (method : NativeMethod Fn) : Option (List (BitVec 8)) :=
  let tempName := method.className ++ byte '/' :: method.methodName ++
    byte '/' :: byte '/' :: method.methodDescriptor.drop 1
  (beforeLast (byte ')') tempName).map fun pre =>
    if pre.getLast? = some (byte '(') then pre.take (pre.length - 3) else pre

def nativeLibOpen (signed : Bool) (methods : List (NativeMethod Fn)) :
    Option (List (NativeMethodSymbol Fn)) :=
  methods.mapM fun method => (method.tempName.bind (mangleString signed)).map (⟨·, method.fnPtr⟩)

def nativeLibSym (symbols : List (NativeMethodSymbol Fn)) (symbol : List (BitVec 8)) :
    Option Fn :=
  let isJava := (['J', 'a', 'v', 'a', '_'].map byte).isPrefixOf symbol
  let isJni := !isJava && (['J', 'N', 'I', '_'].map byte).isPrefixOf symbol
  let name := if isJava then symbol.drop 5 else symbol
  (symbols.find? fun method =>
    isJni && symbol.isPrefixOf method.symbolName || name = method.symbolName).map
      NativeMethodSymbol.fnPtr

def lookupLoadedDlls (signed : Bool) (symbols : List (NativeMethodSymbol Fn))
    (className name type : List (BitVec 8)) : Option (Option Fn) :=
  (mangleClassAndMethodName signed className name).bind fun mangled =>
    match nativeLibSym symbols mangled with
    | some func => some (some func)
    | none =>
      (mangleSignature signed type).map fun mangledSig =>
        nativeLibSym symbols (mangled ++ byte '_' :: byte '_' :: mangledSig)

/-! ## Unique decoding -/

def hexValue (digit : BitVec 8) : Nat :=
  if digit.toNat < 0x3a then digit.toNat - 0x30 else digit.toNat - 0x57

def unescape (c : BitVec 8) : Option (BitVec 16) :=
  if c = byte '1' then some (unit '_')
  else if c = byte '2' then some (unit ';')
  else if c = byte '3' then some (unit '[')
  else none

def demangle : List (BitVec 8) → List (BitVec 16)
  | [] => []
  | first :: rest =>
    if first ≠ byte '_' then first.setWidth 16 :: demangle rest
    else
      match rest.head?.bind unescape with
      | some c => c :: demangle rest.tail
      | none =>
        if rest.head? = some (byte '0') then
          ofNat 16 ((rest.tail.take 4).foldl (fun value digit => 16 * value + hexValue digit) 0)
            :: demangle (rest.drop 5)
        else
          unit '/' :: demangle rest
termination_by text => text.length
decreasing_by all_goals (simp only [length_cons, length_tail, length_drop]; omega)

theorem hexValue_hexDigit (small : value < 16) : hexValue (hexDigit value) = value := by
  interval_cases value <;> rfl

theorem demangle_mangleChar (c : BitVec 16) (rest : List (BitVec 8))
    (apart : c = unit '/' → ∀ next ∈ rest.head?, next ≠ byte '0' ∧ unescape next = none) :
    demangle (mangleChar c ++ rest) = c :: demangle rest := by
  unfold mangleChar
  split_ifs with underscore semicolon bracket slash alnum
  · subst underscore
    simp [demangle, unescape, byte]
  · subst semicolon
    simp [demangle, unescape, byte]
  · subst bracket
    simp [demangle, unescape, byte]
  · subst slash
    cases rest with
    | nil => simp [demangle]
    | cons next =>
      obtain ⟨zero, other⟩ := apart rfl next rfl
      simp [demangle.eq_2 (byte '_'), other, zero]
  · have small : c.toNat < 128 ∧ c.toNat ≠ 0x5f := by
      simp [isAlnum, isDigit, unit, le_def, ← toNat_inj] at alnum underscore
      omega
    have same : (c.setWidth 8).setWidth 16 = c := by
      apply BitVec.eq_of_toNat_eq
      simp
      omega
    have plain : c.setWidth 8 ≠ byte '_' := by
      intro equal
      have := congrArg BitVec.toNat equal
      simp [byte] at this
      omega
    simp [demangle.eq_2 (c.setWidth 8), plain, same]
  · have fits := c.isLt
    have value : ofNat 16 (16 * (16 * (16 * (c.toNat / 4096) + c.toNat / 256 % 16) +
        c.toNat / 16 % 16) + c.toNat % 16) = c := by
      apply BitVec.eq_of_toNat_eq
      simp
      omega
    rw [cons_append, demangle]
    simp [unescape, byte, hexValue_hexDigit, Nat.mod_lt, value, show c.toNat / 4096 < 16 by omega]

structure Clean (text : List (BitVec 16)) : Prop where
  separated : text.IsChain fun c next => c = unit '/' → isDigit next = false
  start : ∀ c ∈ text.head?, isDigit c = false
  opening : unit '(' ∉ text
  closing : unit ')' ∉ text

variable {text name post : List (BitVec 16)}

theorem Clean.append (clean : Clean text) (next : Clean other) : Clean (text ++ other) where
  separated := isChain_append.mpr
    ⟨clean.separated, next.separated, fun _ _ c first _ => next.start c first⟩
  start c first := by
    cases text with
    | nil => exact next.start c first
    | cons => exact clean.start c first
  opening := by simp [clean.opening, next.opening]
  closing := by simp [clean.closing, next.closing]

theorem Clean.single (plain : isDigit c = false ∧ c ≠ unit '(' ∧ c ≠ unit ')') : Clean [c] where
  separated := isChain_singleton c
  start := by simpa using plain.1
  opening := by simpa using plain.2.1.symm
  closing := by simpa using plain.2.2.symm

theorem Clean.head_mangle (start : ∀ c ∈ text.head?, isDigit c = false) :
    ∀ next ∈ (mangle text).head?, next ≠ byte '0' ∧ unescape next = none := by
  cases text with
  | nil => simp [mangle]
  | cons c =>
    have digit := start c rfl
    intro next first
    have head : next = byte '_' ∨ next = c.setWidth 8 ∧ isAlnum c := by
      simp only [mangle, flatMap_cons, mangleChar] at first
      split_ifs at first <;> simp_all
    have large : 65 ≤ next.toNat := by
      rcases head with rfl | ⟨rfl, alnum⟩
      · decide
      · simp [isAlnum, digit, unit, le_def] at alnum
        simp
        omega
    simp only [unescape, byte, ← toNat_inj, ne_eq]
    refine ⟨?_, ?_⟩
    · simp
      omega
    · rw [if_neg, if_neg, if_neg] <;> simp <;> omega

theorem demangle_mangle
    (separated : text.IsChain fun c next => c = unit '/' → isDigit next = false) :
    demangle (mangle text) = text := by
  induction text with
  | nil => simp [mangle, demangle]
  | cons c text ih =>
    rw [mangle, flatMap_cons, demangle_mangleChar, ← mangle, ih separated.tail]
    intro slash
    apply Clean.head_mangle
    intro next first
    exact (isChain_cons.mp separated).1 next first slash

/-! ## Legal methods -/

structure Identifier (text : List (BitVec 16)) : Prop where
  nonempty : text ≠ []
  plain : ∀ c ∈ ['.', ';', '[', '/', '(', ')'], unit c ∉ text
  start : ∀ c ∈ text.head?, isDigit c = false

inductive ClassName : List (BitVec 16) → Prop
  | simple {name : List (BitVec 16)} : Identifier name → ClassName name
  | qualified {package name : List (BitVec 16)} : Identifier package → ClassName name →
      ClassName (package ++ unit '/' :: name)

inductive FieldDescriptor : List (BitVec 16) → Prop
  | base {c : Char} : c ∈ ['B', 'C', 'D', 'F', 'I', 'J', 'S', 'Z'] → FieldDescriptor [unit c]
  | object {name : List (BitVec 16)} : ClassName name →
      FieldDescriptor (unit 'L' :: name ++ [unit ';'])
  | array {type : List (BitVec 16)} : FieldDescriptor type → FieldDescriptor (unit '[' :: type)

inductive Parameters : List (BitVec 16) → Prop
  | none : Parameters []
  | next {type types : List (BitVec 16)} : FieldDescriptor type → Parameters types →
      Parameters (type ++ types)

structure Method where
  className : List (BitVec 16)
  name : List (BitVec 16)
  parameters : List (BitVec 16)
  result : List (BitVec 16)
  className_legal : ClassName className
  name_legal : Identifier name
  parameters_legal : Parameters parameters
  result_legal : FieldDescriptor result ∨ result = [unit 'V']

def utf8 (text : List (BitVec 16)) : List (BitVec 8) := text.flatMap encode

namespace Method

variable (method : Method)

def type : List (BitVec 16) := unit '(' :: method.parameters ++ unit ')' :: method.result

def key : List (BitVec 16) × List (BitVec 16) × List (BitVec 16) :=
  (method.className, method.name, method.parameters)

def native (fnPtr : Fn) : NativeMethod Fn where
  className := utf8 method.className
  methodName := utf8 method.name
  methodDescriptor := utf8 method.type
  fnPtr := fnPtr

def lookup (signed : Bool) (symbols : List (NativeMethodSymbol Fn)) : Option (Option Fn) :=
  lookupLoadedDlls signed symbols (utf8 method.className) (utf8 method.name) (utf8 method.type)

def path : List (BitVec 16) := method.className ++ unit '/' :: method.name

def fullName : List (BitVec 16) := method.path ++ unit '/' :: unit '/' :: method.parameters

end Method

theorem Identifier.clean (legal : Identifier text) : Clean text where
  separated := by
    have slash := legal.plain '/' (by decide)
    refine (pairwise_of_forall_mem_list fun c mem _ _ equal => ?_).isChain
    exact absurd (equal ▸ mem) slash
  start := legal.start
  opening := legal.plain '(' (by decide)
  closing := legal.plain ')' (by decide)

theorem ClassName.clean (legal : ClassName text) : Clean text := by
  induction legal with
  | simple legal => exact legal.clean
  | qualified legal _ clean => exact legal.clean.append ((Clean.single (by decide)).append clean)

theorem FieldDescriptor.clean (legal : FieldDescriptor text) : Clean text := by
  induction legal with
  | @base c known =>
    apply Clean.single
    simp only [mem_cons, not_mem_nil, or_false] at known
    rcases known with rfl | rfl | rfl | rfl | rfl | rfl | rfl | rfl <;> decide
  | object legal =>
    exact ((Clean.single (by decide)).append legal.clean).append (Clean.single (by decide))
  | array _ clean => exact (Clean.single (by decide)).append clean

theorem Parameters.clean (legal : Parameters text) : Clean text := by
  induction legal with
  | none => exact ⟨isChain_nil, by simp, by simp, by simp⟩
  | next legal _ clean => exact legal.clean.append clean

theorem ClassName.append (legal : ClassName className)
    (identifier : Identifier name) : ClassName (className ++ unit '/' :: name) := by
  induction legal with
  | simple legal => exact .qualified legal (.simple identifier)
  | qualified legal _ ih =>
    rw [append_assoc]
    exact .qualified legal ih

theorem ClassName.append_ne (legal : ClassName name) : name ++ post ≠ unit '/' :: other := by
  have start {name post : List (BitVec 16)} (legal : Identifier name) :
      name ++ post ≠ unit '/' :: other := by
    intro equal
    cases name with
    | nil => exact legal.nonempty rfl
    | cons =>
      injection equal with head
      exact legal.plain '/' (by decide) (head ▸ mem_cons_self)
  cases legal with
  | simple legal => exact start legal
  | qualified legal =>
    rw [append_assoc]
    exact start legal

theorem append_cons_inj
    (absent : c ∉ text) (absent' : c ∉ text') (equal : text ++ c :: post = text' ++ c :: after') :
    text = text' ∧ post = after' := by
  have cut {text post} (absent : c ∉ text) : (text ++ c :: post).takeWhile (· ≠ c) = text := by
    rw [takeWhile_append_of_pos (by simpa using fun _ mem => ne_of_mem_of_not_mem mem absent)]
    simp
  obtain rfl : text = text' := by rw [← cut absent, equal, cut absent']
  exact ⟨rfl, by simpa using equal⟩

theorem ClassName.split (legal : ClassName name) (legal' : ClassName name')
    (equal : name ++ unit '/' :: unit '/' :: post = name' ++ unit '/' :: unit '/' :: after') :
    name = name' ∧ post = after' := by
  induction legal generalizing name' with
  | simple legal =>
    have slash := legal.plain '/' (by decide)
    cases legal' with
    | simple legal' => simpa using append_cons_inj slash (legal'.plain '/' (by decide)) equal
    | qualified legal' rest =>
      rw [append_assoc] at equal
      obtain ⟨-, absurd⟩ := append_cons_inj slash (legal'.plain '/' (by decide)) equal
      exact (rest.append_ne absurd.symm).elim
  | qualified legal rest ih =>
    have slash := legal.plain '/' (by decide)
    rw [append_assoc] at equal
    cases legal' with
    | simple legal' =>
      obtain ⟨-, absurd⟩ := append_cons_inj slash (legal'.plain '/' (by decide)) equal
      exact (rest.append_ne absurd).elim
    | qualified legal' rest' =>
      rw [append_assoc] at equal
      obtain ⟨same, tail⟩ := append_cons_inj slash (legal'.plain '/' (by decide)) equal
      obtain ⟨same', post⟩ := ih rest' tail
      exact ⟨by rw [same, same'], post⟩

namespace Method

variable {method other : Method}

theorem path_legal : ClassName method.path := method.className_legal.append method.name_legal

theorem fullName_clean : Clean method.fullName :=
  method.path_legal.clean.append ((Clean.single (by decide)).append
    ((Clean.single (by decide)).append method.parameters_legal.clean))

theorem mangle_fullName_inj :
    mangle method.fullName = mangle other.fullName ↔ method.key = other.key := by
  constructor
  · intro equal
    have names := congrArg demangle equal
    rw [demangle_mangle fullName_clean.separated, demangle_mangle fullName_clean.separated] at names
    obtain ⟨path, parameters⟩ := path_legal.split path_legal names
    -- the last slash of the path stands before the method name
    have reversed := congrArg reverse path
    simp only [Method.path, reverse_append, reverse_cons, append_assoc,
      singleton_append] at reversed
    have slash (method : Method) : unit '/' ∉ method.name.reverse := by
      simpa using method.name_legal.plain '/' (by decide)
    obtain ⟨name, className⟩ := append_cons_inj (slash method) (slash other) reversed
    rw [key, key, parameters, reverse_injective name, reverse_injective className]
  · intro equal
    simp only [key, Prod.mk.injEq] at equal
    rw [fullName, path, equal.1, equal.2.1, equal.2.2, ← path, ← fullName]

theorem mangle_path_ne : mangle method.path ≠ mangle other.fullName := by
  intro equal
  have names := congrArg demangle equal
  rw [demangle_mangle path_legal.clean.separated, demangle_mangle fullName_clean.separated,
    fullName] at names
  have longer := congrArg (· ++ [unit '/', unit '/']) names
  simp only [append_assoc, cons_append] at longer
  have absurd := (path_legal.split path_legal longer).2
  simp at absurd

end Method

/-! ## Binding -/

theorem mem_utf8 (single : b.getLsbD 7 = false) (mem : b ∈ utf8 text) : b.setWidth 16 ∈ text := by
  obtain ⟨c, unit, mem⟩ := mem_flatMap.mp mem
  have encoded := encode_encoded c
  generalize encode c = bytes at mem encoded
  cases encoded with
  | one _ _ _ value =>
    rw [mem_singleton.mp mem]
    have same := congrArg (BitVec.setWidth 16) value
    simp at same
    rwa [same]
  | two | three => simp_all; grind

theorem utf8_append (text other : List (BitVec 16)) :
    utf8 (text ++ other) = utf8 text ++ utf8 other :=
  flatMap_append

theorem utf8_cons (ascii : encode (unit c) = [byte c]) (text : List (BitVec 16)) :
    utf8 (unit c :: text) = byte c :: utf8 text := by
  rw [utf8, flatMap_cons, ascii, singleton_append, ← utf8]

theorem mangleString_utf8 (signed : Bool) (text : List (BitVec 16)) :
    mangleString signed (utf8 text) = some (mangle text) := by
  rw [mangleString, utf8, ← unicode2Utf8_eq_append, convertUtf8_unicode2Utf8, map_some]

theorem beforeLast_append {post : List (BitVec 8)} (absent : c ∉ post) :
    beforeLast c (pre ++ c :: post) = some pre := by
  have skipped : (pre ++ c :: post).reverse.dropWhile (· ≠ c) = c :: pre.reverse := by
    rw [reverse_append, reverse_cons, append_assoc, dropWhile_append_of_pos]
    · simp
    · intro d mem
      have other : d ≠ c := fun equal => absent (equal ▸ mem_reverse.mp mem)
      simpa using other
  simp only [beforeLast, skipped, reverse_reverse]

theorem nativeLibSym_java (symbols : List (NativeMethodSymbol Fn)) (name : List (BitVec 8)) :
    nativeLibSym symbols (['J', 'a', 'v', 'a', '_'].map byte ++ name) =
      (symbols.find? (name = ·.symbolName)).map NativeMethodSymbol.fnPtr := by
  simp [nativeLibSym]

namespace Method

variable {signed : Bool} {method : Method}

theorem closing_notMem : byte ')' ∉ utf8 method.result := by
  intro mem
  have mem := mem_utf8 (by decide) mem
  rcases method.result_legal with legal | void
  · exact legal.clean.closing mem
  · rw [void] at mem
    revert mem
    decide

theorem utf8_type : utf8 method.type =
    byte '(' :: utf8 method.parameters ++ byte ')' :: utf8 method.result := by
  rw [type, utf8_append, utf8_cons (by decide), utf8_cons (by decide)]

theorem tempName_native (fnPtr : Fn) :
    (method.native fnPtr).tempName = some (utf8 method.fullName) := by
  have name : (method.native fnPtr).className ++ byte '/' :: (method.native fnPtr).methodName ++
      byte '/' :: byte '/' :: (method.native fnPtr).methodDescriptor.drop 1 =
      utf8 method.fullName ++ byte ')' :: utf8 method.result := by
    rw [fullName, path, utf8_append, utf8_append, utf8_cons (by decide), utf8_cons (by decide),
      utf8_cons (by decide)]
    simp [native, utf8_type]
  have opening : (utf8 method.fullName).getLast? ≠ some (byte '(') := by
    intro last
    exact fullName_clean.opening (mem_utf8 (by decide) (mem_of_getLast? last))
  rw [NativeMethod.tempName, name, beforeLast_append closing_notMem, map_some, if_neg opening]

theorem mangleClassAndMethodName_eq :
    mangleClassAndMethodName signed (utf8 method.className) (utf8 method.name) =
      some (['J', 'a', 'v', 'a', '_'].map byte ++ mangle method.path) := by
  have text : ['J', 'a', 'v', 'a', '/'].map byte ++ utf8 method.className ++
      byte '/' :: utf8 method.name = utf8 (['J', 'a', 'v', 'a', '/'].map unit ++ method.path) := by
    rw [utf8_append, path, utf8_append, utf8_cons (by decide), append_assoc]
    congr 1
  rw [mangleClassAndMethodName, text, mangleString_utf8, mangle, flatMap_append, ← mangle]
  congr 2

theorem mangleSignature_eq :
    mangleSignature signed (utf8 method.type) = some (mangle method.parameters) := by
  rw [mangleSignature, utf8_type, beforeLast_append closing_notMem, bind_some,
    drop_one, tail_cons, mangleString_utf8]

theorem mangle_fullName : mangle method.path ++ byte '_' :: byte '_' :: mangle method.parameters =
      mangle method.fullName := by
  simp [fullName, mangle, show mangleChar (unit '/') = [byte '_'] by decide]

end Method

def entrySymbol (entry : Method × Fn) : NativeMethodSymbol Fn := ⟨mangle entry.1.fullName, entry.2⟩

theorem nativeLibOpen_eq (signed : Bool) (table : List (Method × Fn)) :
    nativeLibOpen signed (table.map fun entry => entry.1.native entry.2) =
      some (table.map entrySymbol) := by
  induction table with
  | nil => rfl
  | cons entry table ih =>
    rw [nativeLibOpen] at ih
    rw [map_cons, nativeLibOpen, mapM_cons, ih, Method.tempName_native,
      bind_some, mangleString_utf8]
    rfl

theorem lookup_eq (signed : Bool) (table : List (Method × Fn)) (method : Method) :
    method.lookup signed (table.map entrySymbol) =
      some ((table.find? fun entry => method.key = entry.1.key).map Prod.snd) := by
  have short : (table.map entrySymbol).find? (mangle method.path = ·.symbolName) = none := by
    simp [entrySymbol, Method.mangle_path_ne]
  rw [Method.lookup, lookupLoadedDlls, Method.mangleClassAndMethodName_eq, bind_some,
    nativeLibSym_java, short, Method.mangleSignature_eq]
  simp only [map_none, map_some, append_assoc, Method.mangle_fullName,
    nativeLibSym_java, find?_map, Option.map_map]
  simp only [Function.comp_def, entrySymbol, Method.mangle_fullName_inj]

/-- A native method is bound to the function of its own table entry, and to none if it has
no entry. -/
theorem lookup_exact (signed : Bool) (table : List (Method × Fn))
    (distinct : (table.map (·.1.key)).Nodup) (method : Method) :
    ∃ symbols, nativeLibOpen signed (table.map fun entry => entry.1.native entry.2) = some symbols ∧
      (∀ entry ∈ table, entry.1.key = method.key →
        method.lookup signed symbols = some (some entry.2)) ∧
      ((∀ entry ∈ table, entry.1.key ≠ method.key) → method.lookup signed symbols = some none) := by
  refine ⟨_, nativeLibOpen_eq signed table, ?_, ?_⟩
  · intro entry mem key
    rw [lookup_eq]
    cases found : table.find? fun entry => method.key = entry.1.key with
    | none =>
      have missing := find?_eq_none.mp found entry mem
      simp [key] at missing
    | some other =>
      have same : other.1.key = entry.1.key := by
        have matching := find?_some found
        simp_all
      rw [inj_on_of_nodup_map distinct (mem_of_find?_eq_some found) mem same, map_some]
  · intro none
    rw [lookup_eq, find?_eq_none.mpr, map_none]
    intro entry mem
    simpa using (none entry mem).symm

def overload (parameters : List (BitVec 16)) (legal : Parameters parameters) : Method where
  className := [unit 'A']
  name := [unit 'f']
  parameters := parameters
  result := [unit 'V']
  className_legal := .simple ⟨by decide, by simp [unit], by simp [unit, isDigit]⟩
  name_legal := ⟨by decide, by simp [unit], by simp [unit, isDigit]⟩
  parameters_legal := legal
  result_legal := .inr rfl

theorem lookup_exact_overload : ∃ symbols, nativeLibOpen true [(overload [] .none).native 0,
        (overload [unit 'I'] (.next (.base (by decide)) .none)).native 1] = some symbols ∧
      (overload [unit 'I'] (.next (.base (by decide)) .none)).lookup true symbols =
        some (some 1) := by
  obtain ⟨symbols, opened, found, -⟩ := lookup_exact true
    [(overload [] .none, 0), (overload [unit 'I'] (.next (.base (by decide)) .none), 1)]
    (by decide) (overload [unit 'I'] (.next (.base (by decide)) .none))
  exact ⟨symbols, opened, found _ (mem_cons_of_mem _ mem_cons_self) rfl⟩

end JamVM.Amiga
