import JamVM.Zip.Lookup

/-! # Hostile archives

The code checks that headers and data end in the mapped file. It trusts the lengths of file
names, the signs of offsets and lengths, and the two lengths of a stored file.
-/

namespace JamVM.Zip

open Table Text Option

variable (file : List (BitVec 8)) (signed : Bool)

def NameInside (pathname : Nat) : Prop :=
  ∃ name unicode, path file pathname = some name ∧ Reads signed (name ++ [0]) unicode

def NamesInside : Nat → Nat → Prop
  | 0, _ => True
  | entries + 1, pntr =>
    pntr + cenFileHeaderLen ≤ file.length → readLeInt file pntr = some cenFileHeaderSig →
      NameInside file signed (pntr + cenFileHeaderLen) ∧ ∀ pathLen extraLen commentLen,
        readLeShort file (pntr + cenFilePathLenOffset) = some pathLen →
        readLeShort file (pntr + cenFileExtraLenOffset) = some extraLen →
        readLeShort file (pntr + cenFileCommentLenOffset) = some commentLen →
        NamesInside entries (pntr + cenFileHeaderLen + (pathLen + extraLen + commentLen))

/-- The directory of the last end record does not start in front of the file unless it is empty,
and the names in it lie in the file. -/
def DirectoryInside : Prop :=
  ∀ pntr start entries, LastSignature file (file.length - endCenLen) (some pntr) →
    readLeInt file (pntr + endCenDirStartOffset) = some start →
    readLeShort file (pntr + endCenEntriesOffset) = some entries →
      (start < 0 → entries = 0) ∧ NamesInside file signed entries start.toNat

def ArchiveInside : Prop :=
  readLeInt file 0 = some locFileHeaderSig → endCenLen ≤ (mapped file).length →
    DirectoryInside (mapped file) signed

structure TableInside (table : HashTable Nat) : Prop where
  valid : Valid (dirHashing file signed) table
  name : ∀ pathname ∈ contents table.entries, NameInside file signed pathname ∧
    ∃ header, pathname = header + cenFileHeaderLen ∧ pathname ≤ file.length

variable {file signed} {pos : Nat} {table : HashTable Nat}

def Returns (run : Nat → Option α) (good : α → Prop) : Prop :=
  ∃ res, (∃ enough, ∀ fuel ≥ enough, run fuel = some res) ∧ good res

section
variable {good : α → Prop}

theorem Returns.value (holds : good res) : Returns (fun _ => some res) good :=
  ⟨res, ⟨0, fun _ _ => rfl⟩, holds⟩

theorem Returns.bind {run : Nat → Option β} {rest : Nat → β → Option α}
    (ends : ∃ enough, ∀ fuel ≥ enough, run fuel = some out) (returns : Returns (rest · out) good) :
    Returns (fun fuel => (run fuel).bind (rest fuel)) good := by
  obtain ⟨enough, ended⟩ := ends
  obtain ⟨res, ⟨more, ran⟩, holds⟩ := returns
  refine ⟨res, ⟨enough + more, fun fuel large => ?_⟩, holds⟩
  show (run fuel).bind _ = _
  rw [ended fuel (by omega)]
  exact ran fuel (by omega)

theorem returns_iff {run : Nat → Option α} (ends : ∀ fuel ≥ enough, run fuel = out) :
    Returns run good ↔ ∃ res, out = some res ∧ good res := by
  constructor
  · rintro ⟨res, ⟨more, ran⟩, holds⟩
    exact ⟨res, (ends _ (le_max_left _ more)).symm.trans (ran _ (le_max_right ..)), holds⟩
  · rintro ⟨res, isOut, holds⟩
    exact ⟨res, ⟨enough, fun fuel large => (ends fuel large).trans isOut⟩, holds⟩

end

/-! ## Reading the directory -/

theorem exists_readLeShort (inside : pos + length ≤ file.length) (field : offset + 2 ≤ length) :
    ∃ value ≤ 0xffff, readLeShort file (pos + offset) = some value := by
  simp only [readLeShort, List.getElem?_eq_getElem (show pos + offset < file.length by omega),
    List.getElem?_eq_getElem (show pos + offset + 1 < file.length by omega)]
  refine ⟨_, Nat.le_of_lt_succ ?_, rfl⟩
  rw [BitVec.toNat_or, BitVec.toNat_shiftLeft, BitVec.toNat_setWidth, BitVec.toNat_setWidth]
  exact @Nat.or_lt_two_pow _ _ 16 (by omega) (by omega)

theorem exists_field (inside : pos + length ≤ file.length) (field : offset + sigLen ≤ length) :
    ∃ value, readLeInt file (pos + offset) = some value :=
  exists_readLeInt (by omega)

theorem LastSignature.unique (last : LastSignature file pos (some pntr))
    (last' : LastSignature file pos res) : res = some pntr := by
  obtain ⟨before, isSig⟩ := last.sound pntr rfl
  obtain ⟨found, rfl, below⟩ := last'.complete pntr before isSig
  obtain ⟨inside, found⟩ := last'.sound found rfl
  obtain ⟨_, ⟨⟩, above⟩ := last.complete _ inside found
  rw [le_antisymm above below]

theorem scanDirectory_inside (names : NamesInside file signed entries pos)
    (inside : TableInside file signed table) :
    Returns (scanDirectory file signed · entries pos table) (∀ table ∈ ·,
      TableInside file signed table) := by
  induction entries generalizing pos table with
  | zero => exact .value (by rintro _ ⟨⟩; exact inside)
  | succ entries ih =>
    simp only [scanDirectory]
    split_ifs with past
    · exact .value (by rintro _ ⟨⟩)
    have fits := not_lt.mp past
    obtain ⟨sig, isSig⟩ := exists_readLeInt
      ((Nat.add_le_add_left (show sigLen ≤ cenFileHeaderLen by decide) pos).trans fits)
    simp only [isSig, bind_eq_bind, bind_some]
    split_ifs with other
    · exact .value (by rintro _ ⟨⟩)
    obtain rfl := not_not.mp other
    obtain ⟨⟨name, unicode, isPath, reads⟩, rest⟩ := names fits isSig
    obtain ⟨pathLen, -, isPathLen⟩ :=
      exists_readLeShort fits (show cenFilePathLenOffset + 2 ≤ _ by decide)
    obtain ⟨extraLen, -, isExtraLen⟩ :=
      exists_readLeShort fits (show cenFileExtraLenOffset + 2 ≤ _ by decide)
    obtain ⟨commentLen, -, isCommentLen⟩ :=
      exists_readLeShort fits (show cenFileCommentLenOffset + 2 ≤ _ by decide)
    obtain ⟨found, next, added, valid, -, isContents⟩ :=
      inside.valid.find (zipQuery_congruent isPath reads) (some (some (pos + cenFileHeaderLen)))
        (by rintro _ ⟨⟩; exact zipQuery_prepares isPath reads) none
    simp only [isPathLen, isExtraLen, isCommentLen, bind_some, zipHash_path isPath reads]
    refine .bind added (ih (rest _ _ _ isPathLen isExtraLen isCommentLen) ?_)
    refine ⟨valid, fun pathname mem => ?_⟩
    rw [isContents, Operation.apply, scavenged_none] at mem
    split_ifs at mem
    · exact inside.name pathname mem
    · rcases mem with rfl | mem
      · exact ⟨⟨name, unicode, isPath, reads⟩, pos, rfl, fits⟩
      · exact inside.name pathname mem

theorem names_of_scanDirectory
    (scanned : scanDirectory file signed fuel entries pos table = some res) :
    NamesInside file signed entries pos := by
  induction entries generalizing pos table with
  | zero => trivial
  | succ entries ih =>
    intro fits isSig
    simp only [scanDirectory, if_neg (not_lt.mpr fits), isSig, bind_eq_bind, bind_some,
      ne_eq, not_true_eq_false, if_false, bind_eq_some_iff] at scanned
    obtain ⟨pathLen, isPathLen, extraLen, isExtraLen, commentLen, isCommentLen, hash, isHash,
      ⟨found, next⟩, -, scanned⟩ := scanned
    obtain ⟨name, isPath, hashed⟩ := bind_eq_some_iff.mp isHash
    obtain ⟨unicode, reads⟩ := reads_of_utf8HashFrom hashed
    refine ⟨⟨name, unicode, isPath, reads⟩, fun _ _ _ isPathLen' isExtraLen' isCommentLen' => ?_⟩
    cases isPathLen.symm.trans isPathLen'
    cases isExtraLen.symm.trans isExtraLen'
    cases isCommentLen.symm.trans isCommentLen'
    exact ih scanned

theorem notMem_initHashTable (pathname : Nat) :
    pathname ∉ contents (HashTable.initHashTable hashTabSize).entries := by
  simp [contents, live, used, HashTable.initHashTable, HashEntry.isUsed, HashEntry.empty]

theorem tableInside_initHashTable : TableInside file signed (.initHashTable hashTabSize) :=
  ⟨valid_initHashTable _ 8, fun pathname mem => absurd mem (notMem_initHashTable pathname)⟩

theorem processArchive_inside (inside : ArchiveInside file signed) :
    Returns (processArchive file signed) (∀ table ∈ ·,
      TableInside (mapped file) signed table) := by
  show Returns (fun fuel => processArchive file signed fuel) _
  simp only [processArchive]
  by_cases short : file.length < sigLen
  · simp only [if_pos short]
    exact .value (by rintro _ ⟨⟩)
  obtain ⟨magic, isMagic⟩ := exists_readLeInt (show 0 + sigLen ≤ file.length by omega)
  simp only [if_neg short, isMagic, bind_eq_bind, bind_some]
  split_ifs with other low
  · exact .value (by rintro _ ⟨⟩)
  · exact .value (by rintro _ ⟨⟩)
  obtain ⟨res, searched, last⟩ := searchEnd_last
    (show (mapped file).length - endCenLen + endCenLen ≤ (mapped file).length by omega)
  refine .bind ⟨_, searched⟩ ?_
  cases res with
  | none => exact .value (by rintro _ ⟨⟩)
  | some pntr =>
    have fits : pntr + endCenLen ≤ (mapped file).length := by
      have := (last.sound pntr rfl).1
      omega
    obtain ⟨entries, -, isEntries⟩ :=
      exists_readLeShort fits (show endCenEntriesOffset + 2 ≤ _ by decide)
    obtain ⟨start, isStart⟩ := exists_field fits (show endCenDirStartOffset + sigLen ≤ _ by decide)
    obtain ⟨empty, names⟩ := inside (by rw [isMagic, not_not.mp other]) (not_lt.mp low) pntr start
      entries last isStart isEntries
    have started : ¬ (start < 0 ∧ 0 < entries) := by
      rintro ⟨negative, positive⟩
      exact positive.ne' (empty negative)
    simp only [isEntries, isStart, bind_some, if_neg started]
    exact scanDirectory_inside names tableInside_initHashTable

theorem inside_of_processArchive
    (processed : ∃ enough, ∀ fuel ≥ enough, processArchive file signed fuel = some res) :
    ArchiveInside file signed := by
  obtain ⟨enough, processed⟩ := processed
  have processed := processed (enough + (mapped file).length) (Nat.le_add_right _ _)
  intro begins long pntr start entries last isStart isEntries
  have recordLength : endCenLen = 22 := rfl
  obtain ⟨found, searched, last'⟩ := searchEnd_last
    (show (mapped file).length - endCenLen + endCenLen ≤ (mapped file).length by omega)
  rw [last.unique last'] at searched
  have bounded : (mapped file).length ≤ file.length := List.length_take_le' ..
  have large : ¬ file.length < sigLen := by
    intro short
    have : sigLen = 4 := rfl
    omega
  simp only [processArchive, if_neg large, begins, bind_eq_bind, bind_some, ne_eq,
    not_true_eq_false, if_false, if_neg (not_lt.mpr long),
    searched (enough + (mapped file).length) (by omega), isEntries, isStart] at processed
  split_ifs at processed with outside
  refine ⟨fun negative => ?_, names_of_scanDirectory processed⟩
  by_contra positive
  exact outside ⟨negative, Nat.pos_of_ne_zero positive⟩

section
variable (file) (inflate : List (BitVec 8) → Int → Option (List (BitVec 8)))

/-- The lengths of data that lies in the file: they are equal if it is stored, and deflated data
that is accepted fills the buffer. -/
def Sized (compMethod : Nat) (offset compLen uncompLen : Int) : Prop :=
  0 ≤ uncompLen ∧ (compMethod = compStored → compLen = uncompLen) ∧
    (compMethod = compDeflated → ∃ data, bytesAt file offset compLen = some data ∧
      ∀ out, inflate data uncompLen = some out → out.length = uncompLen)

/-- The positions that the code computes are `int`s, and the data has its lengths if the local
header and the data end in the file. -/
def Extractable (dirEntry : Nat) : Prop :=
  ∀ offset, readLeInt file (headerField dirEntry cenFileLocalHdrOffset) = some offset →
    offset + locFileHeaderLen ≤ 0x7fffffff ∧
    (offset + locFileHeaderLen ≤ file.length → 0 ≤ offset ∧
      ∀ extraLen, readLeShort file (offset.toNat + locFileExtraOffset) = some extraLen →
      ∀ pathLen, readLeShort file (headerField dirEntry cenFilePathLenOffset) = some pathLen →
      ∀ uncompLen,
        readLeInt file (headerField dirEntry cenFileUncompLenOffset) = some uncompLen →
      ∀ compLen, readLeInt file (headerField dirEntry cenFileCompLenOffset) = some compLen →
      ∀ compMethod,
        readLeShort file (headerField dirEntry cenFileCompMethOffset) = some compMethod →
          offset + (locFileHeaderLen + pathLen + extraLen) ≤ 0x7fffffff ∧
          offset + (locFileHeaderLen + pathLen + extraLen) + compLen ≤ 0x7fffffff ∧
          (offset + (locFileHeaderLen + pathLen + extraLen) + compLen ≤ file.length →
            Sized file inflate compMethod (offset + (locFileHeaderLen + pathLen + extraLen))
              compLen uncompLen))

end

def Extracted.Consistent : Extracted → Prop
  | .null => True
  | .exitVM => False
  | .data bytes uncompLen => bytes.length = uncompLen

section
variable {inflate : List (BitVec 8) → Int → Option (List (BitVec 8))}

theorem decompress_consistent {offset compLen uncompLen : Int} (low : 0 ≤ offset)
    (high : offset + compLen ≤ file.length) :
    (∃ res, decompress file inflate compMethod offset compLen uncompLen = some res ∧
      res.Consistent) ↔ Sized file inflate compMethod offset compLen uncompLen := by
  unfold decompress Sized
  split_ifs with negative isStored fits isDeflated
  · simp [Extracted.Consistent, not_le.mpr negative]
  · simp only [isStored, show compStored ≠ compDeflated by decide, false_imp_iff, and_true,
      forall_const, not_lt.mp negative, true_and, bytesAt]
    constructor
    · rintro ⟨res, written, consistent⟩
      obtain ⟨bytes, isBytes, rfl⟩ := map_eq_some_iff.mp written
      obtain ⟨inside, ⟨⟩⟩ := Option.ite_none_right_eq_some.mp isBytes
      rw [Extracted.Consistent, List.length_take, List.length_drop] at consistent
      omega
    · rintro rfl
      rw [if_pos ⟨low, not_lt.mp negative, high⟩]
      refine ⟨_, rfl, ?_⟩
      rw [Extracted.Consistent, List.length_take, List.length_drop]
      omega
  · simp only [false_and, exists_false, false_iff]
    rintro ⟨-, stored, -⟩
    exact fits (stored isStored).le
  · simp only [isDeflated, show compDeflated ≠ compStored by decide, false_imp_iff, true_and,
      forall_const, not_lt.mp negative]
    cases bytesAt file offset compLen with
    | none => simp
    | some data =>
      cases inflated : inflate data uncompLen <;> simp [inflated, Extracted.Consistent]
  · simp [isStored, isDeflated, not_lt.mp negative, Extracted.Consistent]

theorem readEntry_consistent (inside : header + cenFileHeaderLen ≤ file.length) :
    (∃ res, readEntry file inflate (header + cenFileHeaderLen) = some res ∧ res.Consistent) ↔
      Extractable file inflate (header + cenFileHeaderLen) := by
  obtain ⟨offset, isOffset⟩ := exists_field inside (show cenFileLocalHdrOffset + _ ≤ _ by decide)
  obtain ⟨compLen, isCompLen⟩ := exists_field inside (show cenFileCompLenOffset + _ ≤ _ by decide)
  obtain ⟨uncompLen, isUncompLen⟩ :=
    exists_field inside (show cenFileUncompLenOffset + _ ≤ _ by decide)
  obtain ⟨method, -, isMethod⟩ :=
    exists_readLeShort inside (show cenFileCompMethOffset + 2 ≤ _ by decide)
  obtain ⟨pathLen, -, isPathLen⟩ :=
    exists_readLeShort inside (show cenFilePathLenOffset + 2 ≤ _ by decide)
  simp only [readEntry, Extractable, headerField_add, isOffset, isPathLen, isUncompLen, isCompLen,
    isMethod, bind_eq_bind, bind_some, some.injEq, forall_eq']
  by_cases small : offset + locFileHeaderLen ≤ 0x7fffffff
  swap
  · simp [intSum, small]
  simp only [intSum_eq small, bind_some, small, true_and]
  split_ifs with past before
  · simp [Extracted.Consistent, not_le.mpr past]
  · simp [not_lt.mp past, not_le.mpr before]
  obtain ⟨extraLen, -, isExtraLen⟩ := exists_readLeShort
    (show offset.toNat + locFileHeaderLen ≤ file.length by omega)
    (show locFileExtraOffset + 2 ≤ _ by decide)
  simp only [isExtraLen, bind_some, some.injEq, forall_eq', not_lt.mp past, not_lt.mp before,
    true_and, forall_const]
  by_cases starts : offset + (locFileHeaderLen + pathLen + extraLen) ≤ 0x7fffffff
  swap
  · simp [intSum, starts]
  by_cases stops : offset + (locFileHeaderLen + pathLen + extraLen) + compLen ≤ 0x7fffffff
  swap
  · simp [intSum, starts, stops]
  simp only [intSum_eq starts, intSum_eq stops, bind_some, starts, stops, true_and]
  split_ifs with long
  · simp [Extracted.Consistent, not_le.mpr long]
  · rw [decompress_consistent (by omega) (not_lt.mp long)]
    simp [not_lt.mp long]

end

end JamVM.Zip
