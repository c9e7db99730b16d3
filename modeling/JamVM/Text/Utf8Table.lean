import JamVM.Table.HashSet
import JamVM.Text.Utf8

/-! # Interned strings

Strings in modified UTF-8 are compared and hashed by their code units, and kept in a hash
table of their own. An entry of the table is the memory at its address.
-/

namespace JamVM.Text

open Bool Option List Table

def utf8HashFrom (signed : Bool) (hash : BitVec 32) : List (BitVec 8) → Option (BitVec 32)
  | [] => none
  | first :: rest =>
    if first = 0 then
      some hash
    else
      match read : getUtf8Char signed (first :: rest) with
      | none => none
      | some (value, post) =>
        have := getUtf8Char_lt read
        utf8HashFrom signed (hash * 37 + (value.setWidth 16).setWidth 32) post
termination_by memory => memory.length
decreasing_by assumption

def utf8Hash (signed : Bool) (memory : List (BitVec 8)) : Option (BitVec 32) :=
  utf8HashFrom signed 0 memory

def utf8Comp (signed : Bool) : List (BitVec 8) → List (BitVec 8) → Option Bool
  | [], _ => none
  | first :: rest, other =>
    if first = 0 then
      match other with
      | [] => none
      | first :: _ => some (first = 0)
    else
      match other with
      | [] => none
      | first' :: rest' =>
        if first' = 0 then
          some false
        else
          match read : getUtf8Char signed (first :: rest) with
          | none => none
          | some (c, post) =>
            have := getUtf8Char_lt read
            match getUtf8Char signed (first' :: rest') with
            | none => none
            | some (c', after') =>
              if c.setWidth 16 ≠ c'.setWidth 16 then some false
              else utf8Comp signed post after'
termination_by memory => memory.length
decreasing_by assumption

def hashUnits (unicode : List (BitVec 16)) : BitVec 32 :=
  unicode.foldl (fun hash c => hash * 37 + c.setWidth 32) 0

inductive Reads (signed : Bool) : List (BitVec 8) → List (BitVec 16) → Prop
  | done (rest : List (BitVec 8)) : Reads signed (0 :: rest) []
  | char {first : BitVec 8} {rest post : List (BitVec 8)} {value : BitVec 32} {c : BitVec 16}
      {unicode : List (BitVec 16)} : first ≠ 0 →
      getUtf8Char signed (first :: rest) = some (value, post) → value.setWidth 16 = c →
      Reads signed post unicode → Reads signed (first :: rest) (c :: unicode)

theorem reads_of_convertUtf8 (converted : convertUtf8 signed memory = some unicode) :
    Reads signed memory unicode := by
  fun_induction convertUtf8 signed memory generalizing unicode with
  | case1 | case3 => cases converted
  | case2 rest =>
    cases converted
    exact .done rest
  | case4 first rest nonzero value post read _ ih =>
    obtain ⟨tail, isTail, rfl⟩ := map_eq_some_iff.mp converted
    exact .char nonzero read rfl (ih isTail)

theorem reads_of_utf8HashFrom {hash : BitVec 32}
    (hashed : utf8HashFrom signed hash memory = some res) :
    ∃ unicode, Reads signed memory unicode := by
  fun_induction utf8HashFrom signed hash memory with
  | case1 | case3 => cases hashed
  | case2 _ rest => exact ⟨[], .done rest⟩
  | case4 _ first rest nonzero value post read _ ih =>
    obtain ⟨unicode, reads⟩ := ih hashed
    exact ⟨_, .char nonzero read rfl reads⟩

section
variable {signed : Bool} {memory other : List (BitVec 8)} {unicode unicode' : List (BitVec 16)}

section
variable (reads : Reads signed memory unicode)
include reads

theorem Reads.utf8HashFrom (hash : BitVec 32) : Text.utf8HashFrom signed hash memory =
      some (unicode.foldl (fun hash c => hash * 37 + c.setWidth 32) hash) := by
  induction reads generalizing hash with
  | done => simp [Text.utf8HashFrom]
  | char nonzero read isUnit _ ih =>
    rw [Text.utf8HashFrom, if_neg nonzero]
    split
    · rename_i unread
      cases read.symm.trans unread
    · rename_i found
      cases read.symm.trans found
      rw [ih, isUnit, foldl_cons]

theorem Reads.convertUtf8 : Text.convertUtf8 signed memory = some unicode := by
  induction reads with
  | done => simp [Text.convertUtf8]
  | char nonzero read isUnit _ ih => rw [convertUtf8_cons nonzero read, ih, map_some, isUnit]

theorem Reads.utf8Comp_iff :
    utf8Comp signed memory other = some true ↔ Reads signed other unicode := by
  induction reads generalizing other with
  | done =>
    rcases other with _ | ⟨first, rest⟩
    · simp only [utf8Comp, if_pos, reduceCtorEq, false_iff]
      rintro ⟨⟩
    · simp only [utf8Comp, if_pos, some.injEq, decide_eq_true_eq]
      exact ⟨fun isZero => isZero ▸ .done rest, fun | .done _ => rfl⟩
  | char nonzero read isUnit _ ih =>
    rw [utf8Comp.eq_def]
    dsimp only
    rw [if_neg nonzero]
    rcases other with _ | ⟨first', rest'⟩
    · simp only [reduceCtorEq, false_iff]
      rintro ⟨⟩
    dsimp only
    split_ifs with isZero
    · simp only [some.injEq, false_eq_true, false_iff]
      rintro (_ | nonzero')
      exact nonzero' isZero
    split
    · rename_i unread
      cases read.symm.trans unread
    rename_i found
    cases read.symm.trans found
    cases read' : getUtf8Char signed (first' :: rest') with
    | none =>
      simp only [reduceCtorEq, false_iff]
      rintro (_ | ⟨_, found⟩)
      cases read'.symm.trans found
    | some res =>
      obtain ⟨value', after'⟩ := res
      dsimp only
      split_ifs with ne
      · simp only [some.injEq, false_eq_true, false_iff]
        rintro (_ | ⟨_, found, isUnit'⟩)
        cases read'.symm.trans found
        exact ne (isUnit.trans isUnit'.symm)
      · rw [ih]
        refine ⟨fun reads' => .char isZero read' ((not_not.mp ne).symm.trans isUnit) reads', ?_⟩
        rintro (_ | ⟨_, found, _, reads'⟩)
        cases read'.symm.trans found
        exact reads'

end

/-! ## The terminator

Nothing checks that a string is well formed. When the bytes of a character are cut off by the
terminating NUL, the routines take the NUL for one of them and read on after it. -/

inductive Whole : List (BitVec 8) → Prop
  | nil : Whole []
  | one : first.getLsbD 7 = false → Whole rest → Whole (first :: rest)
  | two : first.getLsbD 7 = true → first.getLsbD 5 = false → Whole rest →
      Whole (first :: second :: rest)
  | three : first.getLsbD 7 = true → first.getLsbD 5 = true → Whole rest →
      Whole (first :: second :: third :: rest)

theorem Whole.reads (signed : Bool) (whole : Whole bytes) (noZero : 0 ∉ bytes) :
    ∃ unicode, Reads signed (bytes ++ [0]) unicode ∧
      utf8Len signed (bytes ++ [0]) = some (BitVec.ofNat 32 unicode.length) := by
  have extend {first : BitVec 8} {rest post : List (BitVec 8)} {value : BitVec 32}
      (nonzero : first ≠ 0) (read : getUtf8Char signed (first :: rest) = some (value, post))
      (length : utf8Len signed (first :: rest) = (utf8Len signed post).map (· + 1)) :
      (∃ unicode, Reads signed post unicode ∧
        utf8Len signed post = some (BitVec.ofNat 32 unicode.length)) →
      ∃ unicode, Reads signed (first :: rest) unicode ∧
        utf8Len signed (first :: rest) = some (BitVec.ofNat 32 unicode.length) := by
    rintro ⟨unicode, reads, count⟩
    refine ⟨_, .char nonzero read rfl reads, ?_⟩
    rw [length, count, map_some, length_cons, BitVec.ofNat_add]
    rfl
  induction whole with
  | nil => exact ⟨[], .done [], by simp [utf8Len]⟩
  | one single _ ih =>
    have nonzero := (ne_of_not_mem_cons noZero).symm
    exact extend nonzero (getUtf8Char_one signed _ single) (utf8Len_one signed _ nonzero single)
      (ih (by simp_all))
  | two long short _ ih =>
    exact extend (ne_of_not_mem_cons noZero).symm (getUtf8Char_two signed _ _ long short)
      (utf8Len_two signed _ _ long short) (ih (by simp_all))
  | three long longer _ ih =>
    exact extend (ne_of_not_mem_cons noZero).symm (getUtf8Char_three signed _ _ _ long longer)
      (utf8Len_three signed _ _ _ long longer) (ih (by simp_all))

theorem Whole.of_reads (reads : Reads signed (bytes ++ [0]) unicode) (noZero : 0 ∉ bytes) :
    Whole bytes := by
  generalize isMemory : bytes ++ [0] = memory at reads
  induction reads generalizing bytes with
  | done =>
    cases bytes with
    | nil => exact .nil
    | cons => simp_all
  | char nonzero read _ reads ih =>
    rcases bytes with _ | ⟨first, bytes⟩
    · simp_all
    obtain ⟨rfl, rfl⟩ := cons.inj isMemory
    cases long : first.getLsbD 7 with
    | false =>
      cases (getUtf8Char_one _ _ long).symm.trans read
      exact .one long (ih (by simp_all) rfl)
    | true =>
      -- A character that takes the NUL leaves nothing to read behind it.
      rcases bytes with _ | ⟨second, bytes⟩
      · cases longer : first.getLsbD 5 with
        | false =>
          cases (getUtf8Char_two _ _ [] long longer).symm.trans read
          cases reads
        | true =>
          change getUtf8Char _ [first, 0] = _ at read
          rw [getUtf8Char, if_pos (promote_bit7.mpr long)] at read
          rw [if_pos (promote_bit5.mpr longer)] at read
          cases read
      cases longer : first.getLsbD 5 with
      | false =>
        cases (getUtf8Char_two _ _ _ long longer).symm.trans read
        exact .two long longer (ih (by simp_all) rfl)
      | true =>
        rcases bytes with _ | ⟨third, bytes⟩
        · cases (getUtf8Char_three _ _ _ [] long longer).symm.trans read
          cases reads
        · cases (getUtf8Char_three _ _ _ _ long longer).symm.trans read
          exact .three long longer (ih (by simp_all) rfl)

theorem Reads.utf8Comp_isSome (reads : Reads signed memory unicode)
    (reads' : Reads signed other unicode') : (utf8Comp signed memory other).isSome := by
  induction reads generalizing other unicode' with
  | done => cases reads' <;> simp [utf8Comp]
  | char nonzero read _ _ ih =>
    rw [utf8Comp.eq_def]
    dsimp only
    rw [if_neg nonzero]
    cases reads' with
    | done => simp
    | char nonzero' read' _ reads' =>
      dsimp only
      rw [if_neg nonzero', read']
      split
      · rename_i unread
        cases read.symm.trans unread
      · rename_i found
        cases read.symm.trans found
        dsimp only
        split_ifs
        · rfl
        · exact ih reads'

/-- The routines read nothing behind the terminating NUL, and as many code units are written as
have been counted. -/
structure Inside (signed : Bool) (bytes : List (BitVec 8)) : Prop where
  convert : ∃ unicode, convertUtf8 signed (bytes ++ [0]) = some unicode ∧
    utf8Len signed (bytes ++ [0]) = some (BitVec.ofNat 32 unicode.length)
  hash : (utf8Hash signed (bytes ++ [0])).isSome
  comp : ∀ other, 0 ∉ other → Whole other →
    (utf8Comp signed (bytes ++ [0]) (other ++ [0])).isSome ∧
    (utf8Comp signed (other ++ [0]) (bytes ++ [0])).isSome

/-- Exactly the strings that end with a whole character are read up to the terminating NUL. -/
theorem utf8_inside (signed : Bool) {bytes : List (BitVec 8)} (noZero : 0 ∉ bytes) :
    Inside signed bytes ↔ Whole bytes := by
  constructor
  · rintro ⟨⟨unicode, converted, -⟩, -, -⟩
    exact .of_reads (reads_of_convertUtf8 converted) noZero
  · intro whole
    obtain ⟨unicode, reads, length⟩ := whole.reads signed noZero
    refine ⟨⟨unicode, reads.convertUtf8, length⟩, ?_, fun other noZero' whole' => ?_⟩
    · rw [utf8Hash, reads.utf8HashFrom]
      rfl
    · obtain ⟨_, reads', -⟩ := whole'.reads signed noZero'
      exact ⟨reads.utf8Comp_isSome reads', reads'.utf8Comp_isSome reads⟩

theorem utf8_inside_euro : Inside true [0xe2, 0x82, 0xac] ∧ ¬ Inside true [0x41, 0xe2, 0x82] := by
  refine ⟨(utf8_inside true (by decide)).mpr (.three (by decide) (by decide) .nil), ?_⟩
  rw [utf8_inside true (by decide)]
  rintro (_ | ⟨-, cut⟩ | ⟨long, -⟩ | ⟨long, -⟩)
  · rcases cut with _ | ⟨long, -⟩ | ⟨-, short, -⟩
    · cases long
    · cases short
  all_goals cases long

theorem utf8_past_terminator :
    ∃ bytes : List (BitVec 8), 0 ∉ bytes ∧ utf8Len true (bytes ++ [0]) = none ∧
      convertUtf8 true (bytes ++ [0]) = none ∧ utf8Hash true (bytes ++ [0]) = none ∧
      utf8Comp true (bytes ++ [0]) (bytes ++ [0]) = none := by
  have unread : getUtf8Char true [0xe0, 0] = none := by decide
  refine ⟨[0xe0], by decide, ?_, ?_, ?_, ?_⟩
  · simp [utf8Len, promote]
  · rw [singleton_append, convertUtf8, if_neg (by decide)]
    split
    · rfl
    · rename_i found
      cases unread.symm.trans found
  · rw [singleton_append, utf8Hash, utf8HashFrom, if_neg (by decide)]
    split
    · rfl
    · rename_i found
      cases unread.symm.trans found
  · rw [singleton_append, utf8Comp.eq_def]
    dsimp only
    rw [if_neg (by decide), if_neg (by decide)]
    split
    · rfl
    · rename_i found
      cases unread.symm.trans found

end

/-! ## The table -/

def utf8Hashing (signed : Bool) : Hashing (List (BitVec 8)) (Option (List (BitVec 16))) where
  key := convertUtf8 signed
  hash := fun unicode => (unicode.elim 0 hashUnits).toNat

def utf8Query (signed : Bool) (memory : List (BitVec 8)) (hash : BitVec 32) :
    Query (List (BitVec 8)) where
  hash := hash.toNat
  compare := fun pointer stored => match pointer with
    | .deleted => false
    | .live other =>
      memory = other || (hash.toNat = stored && utf8Comp signed memory other = some true)

def newUtf8 (signed : Bool) (fuel : Nat) (table : HashTable (List (BitVec 8)))
    (memory : List (BitVec 8)) :
    Option (Option (Pointer (List (BitVec 8))) × HashTable (List (BitVec 8))) := do
  let hash ← utf8Hash signed memory
  table.findHashEntry fuel (utf8Query signed memory hash) (some (some memory)) none

theorem unicode2Utf8_eq_append (unicode : List (BitVec 16)) :
    unicode2Utf8 unicode = unicode.flatMap encode ++ [0] := by
  induction unicode with
  | nil => rfl
  | cons c unicode ih => rw [unicode2Utf8, ih, flatMap_cons, append_assoc]

theorem convertUtf8_unicode2Utf8 (signed : Bool) (unicode : List (BitVec 16)) :
    convertUtf8 signed (unicode2Utf8 unicode) = some unicode := by
  induction unicode with
  | nil => simp [unicode2Utf8, convertUtf8]
  | cons c unicode ih => rw [unicode2Utf8, (encode_encoded c).convertUtf8_append, ih, map_some]

theorem utf8Hash_unicode2Utf8 (signed : Bool) (unicode : List (BitVec 16)) :
    utf8Hash signed (unicode2Utf8 unicode) = some (hashUnits unicode) :=
  (reads_of_convertUtf8 (convertUtf8_unicode2Utf8 signed unicode)).utf8HashFrom 0

theorem flatMap_encode_injective {other : List (BitVec 16)}
    (same : unicode.flatMap encode = other.flatMap encode) : unicode = other := by
  have converted := convertUtf8_unicode2Utf8 true unicode
  rw [unicode2Utf8_eq_append, same, ← unicode2Utf8_eq_append, convertUtf8_unicode2Utf8] at converted
  exact (some.inj converted).symm

section
variable {signed : Bool} {table : HashTable (List (BitVec 8))}

theorem hashOf_unicode2Utf8 (unicode : List (BitVec 16)) :
    (utf8Hashing signed).hashOf (unicode2Utf8 unicode) = (hashUnits unicode).toNat := by
  simp [Hashing.hashOf, utf8Hashing, convertUtf8_unicode2Utf8]

theorem utf8Query_congruent (unicode : List (BitVec 16)) :
    (utf8Query signed (unicode2Utf8 unicode) (hashUnits unicode)).Congruent
      (utf8Hashing signed) := by
  refine ⟨fun _ => rfl, fun other isMatch => ?_⟩
  simp only [Query.Matches, utf8Query, or_eq_true, and_eq_true,
    decide_eq_true_eq] at isMatch ⊢
  rcases isMatch with rfl | ⟨sameHash, _⟩
  · exact (hashOf_unicode2Utf8 unicode).symm
  · exact sameHash

theorem utf8Query_matches :
    (utf8Query signed (unicode2Utf8 unicode) (hashUnits unicode)).Matches (utf8Hashing signed)
      other ↔ convertUtf8 signed other = some unicode := by
  have converted := convertUtf8_unicode2Utf8 signed unicode
  simp only [Query.Matches, utf8Query, or_eq_true, and_eq_true, decide_eq_true_eq,
    (reads_of_convertUtf8 converted).utf8Comp_iff]
  constructor
  · rintro (rfl | ⟨_, reads⟩)
    · exact converted
    · exact reads.convertUtf8
  · intro same
    refine .inr ⟨?_, reads_of_convertUtf8 same⟩
    simp only [Hashing.hashOf, utf8Hashing, same, elim_some]

theorem utf8Query_prepares (unicode : List (BitVec 16)) :
    (utf8Query signed (unicode2Utf8 unicode) (hashUnits unicode)).Prepares (utf8Hashing signed)
      (unicode2Utf8 unicode) := by
  refine ⟨hashOf_unicode2Utf8 unicode, fun other sameKey => ?_⟩
  simp only [utf8Hashing, convertUtf8_unicode2Utf8] at sameKey
  exact utf8Query_matches.mpr sameKey

theorem newUtf8_spec (valid : Valid (utf8Hashing signed) table) (unicode : List (BitVec 16)) :
    ∃ interned next, (∃ enough, ∀ fuel ≥ enough, newUtf8 signed fuel table (unicode2Utf8 unicode) =
        some (some (.live interned), next)) ∧
      Valid (utf8Hashing signed) next ∧
      interned ∈ contents next.entries ∧ convertUtf8 signed interned = some unicode ∧
      contents table.entries ⊆ contents next.entries ∧
      contents next.entries ⊆ insert (unicode2Utf8 unicode) (contents table.entries) := by
  obtain ⟨res, next, ⟨enough, returns⟩, validNext, answers, isContents⟩ :=
    valid.find (utf8Query_congruent unicode) (some (some (unicode2Utf8 unicode)))
      (by rintro _ ⟨⟩; exact utf8Query_prepares unicode) none
  have found : ∀ {interned}, res = some (.live interned) →
      ∃ enough, ∀ fuel ≥ enough, newUtf8 signed fuel table (unicode2Utf8 unicode) =
        some (some (.live interned), next) := by
    rintro interned rfl
    refine ⟨enough, fun fuel large => ?_⟩
    rw [newUtf8, utf8Hash_unicode2Utf8]
    exact returns fuel large
  rw [Operation.apply] at isContents
  rcases answers with ⟨interned, mem, isMatch, isResult⟩ | ⟨absent, isResult⟩
  · rw [if_pos ⟨interned, mem, isMatch⟩] at isContents
    refine ⟨interned, next, found isResult, validNext, ?_⟩
    rw [isContents]
    exact ⟨mem, utf8Query_matches.mp isMatch, subset_rfl, Set.subset_insert _ _⟩
  · have noMatch : ¬ ∃ interned ∈ contents table.entries, (utf8Query signed (unicode2Utf8 unicode)
        (hashUnits unicode)).Matches (utf8Hashing signed) interned := by
      rintro ⟨interned, mem, isMatch⟩
      exact absent interned mem isMatch
    rw [if_neg noMatch] at isContents
    simp only [scavenged_none] at isContents
    refine ⟨unicode2Utf8 unicode, next, found isResult, validNext, ?_⟩
    rw [isContents]
    exact ⟨Set.mem_insert _ _, convertUtf8_unicode2Utf8 signed unicode, Set.subset_insert _ _,
      subset_rfl⟩

end

end JamVM.Text
