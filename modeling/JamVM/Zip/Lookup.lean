import JamVM.Zip.Archive

/-! # Archive lookup

What `processArchive` records of a well-formed archive, and what the searches return.
-/

namespace JamVM.Zip

open Nat List Foundation Table Text Option

section
variable {file : List (BitVec 8)} {pos value : Nat}

theorem HasShort.read (has : HasShort file pos value) : readLeShort file pos = some value := by
  rw [readLeShort, has.byte0, has.byte1]
  simp only [bind_eq_bind, bind_some, joinBytes2_reverse, BitVec.toNat_setWidth,
    BitVec.toNat_ofNat, some.injEq]
  have := has.bound
  omega

theorem HasInt.read (has : HasInt file pos value) : readLeInt file pos = some (value : Int) := by
  rw [readLeInt, has.byte0, has.byte1, has.byte2, has.byte3]
  simp only [bind_eq_bind, bind_some, joinBytes4_reverse, some.injEq]
  have bound := has.bound
  rw [BitVec.toInt_eq_toNat_of_lt (by rw [BitVec.toNat_ofNat]; omega), BitVec.toNat_ofNat]
  omega

theorem HasInt.of_read (read : readLeInt file pos = some endCenSig) :
    HasInt file pos endCenSig.toNat := by
  simp only [readLeInt, bind_eq_bind, bind_eq_some_iff, some.injEq] at read
  obtain ⟨b0, isB0, b1, isB1, b2, isB2, b3, isB3, same⟩ := read
  have joined := BitVec.eq_of_toInt_eq (y := BitVec.ofNat 32 endCenSig.toNat) same
  refine ⟨by decide, isB0.trans ?_, isB1.trans ?_, isB2.trans ?_, isB3.trans ?_⟩ <;>
    rw [← joined, some.injEq] <;> ext i inside <;> simp [byteOf, inside] <;> grind

theorem HasInt.signature_bytes (has : HasInt file pos endCenSig.toNat)
    (positive : 0 < offset) (inside : offset < sigLen) :
    file[pos + offset]? ≠ some 0x50 := by
  have cases : offset = 1 ∨ offset = 2 ∨ offset = 3 := by
    rw [sigLen] at inside
    omega
  rcases cases with rfl | rfl | rfl
  · rw [has.byte1]
    decide
  · rw [has.byte2]
    decide
  · rw [has.byte3]
    decide

theorem exists_readLeInt (inside : pos + sigLen ≤ file.length) :
    ∃ value, readLeInt file pos = some value := by
  rw [sigLen] at inside
  simp only [readLeInt, getElem?_eq_getElem (show pos < file.length by omega),
    getElem?_eq_getElem (show pos + 1 < file.length by omega),
    getElem?_eq_getElem (show pos + 2 < file.length by omega),
    getElem?_eq_getElem (show pos + 3 < file.length by omega)]
  exact ⟨_, rfl⟩

end

/-! ## The end record -/

section
variable {file : List (BitVec 8)} {endRecord : Nat}

structure LastSignature (file : List (BitVec 8)) (pntr : Nat) (res : Option Nat) : Prop where
  sound : ∀ p, res = some p → p ≤ pntr ∧ HasInt file p endCenSig.toNat
  complete : ∀ p ≤ pntr, HasInt file p endCenSig.toNat → ∃ found, res = some found ∧ p ≤ found

theorem searchEnd_last (inside : pntr + endCenLen ≤ file.length) :
    ∃ res, (∀ fuel > pntr, searchEnd file fuel pntr = some res) ∧
      LastSignature file pntr res := by
  induction pntr using Nat.strong_induction_on with
  | _ pntr ih =>
    have recordLength : endCenLen = 22 := rfl
    have sigLength : sigLen = 4 := rfl
    have isByte := getElem?_eq_getElem (show pntr < file.length by omega)
    obtain ⟨sig, isSig⟩ := exists_readLeInt (show pntr + sigLen ≤ file.length by omega)
    have goBack (skip : Nat) (positive : 0 < skip)
        (passed : ∀ p ≤ pntr, HasInt file p endCenSig.toNat → p + skip ≤ pntr)
        (step : ∀ left, searchEnd file (left + 1) pntr =
          if skip ≤ pntr then searchEnd file left (pntr - skip) else some none) :
        ∃ res, (∀ fuel > pntr, searchEnd file fuel pntr = some res) ∧
          LastSignature file pntr res := by
      by_cases far : skip ≤ pntr
      · obtain ⟨res, ran, last⟩ := ih (pntr - skip) (by omega) (by omega)
        refine ⟨res, fun fuel enough => ?_, fun p isFound => ?_, fun p before has => ?_⟩
        · obtain ⟨left, rfl⟩ : ∃ left, fuel = left + 1 := ⟨fuel - 1, by omega⟩
          rw [step, if_pos far, ran left (by omega)]
        · have := last.sound p isFound
          exact ⟨by omega, this.2⟩
        · have := passed p before has
          exact last.complete p (by omega) has
      · refine ⟨none, fun fuel enough => ?_, nofun, fun p before has => ?_⟩
        · obtain ⟨left, rfl⟩ : ∃ left, fuel = left + 1 := ⟨fuel - 1, by omega⟩
          rw [step, if_neg far]
        · have := passed p before has
          omega
    by_cases isP : file[pntr] = 0x50
    · by_cases isEnd : sig = endCenSig
      · refine ⟨some pntr, fun fuel enough => ?_, fun p isFound => ?_, fun p before _ => ?_⟩
        · obtain ⟨left, rfl⟩ : ∃ left, fuel = left + 1 := ⟨fuel - 1, by omega⟩
          simp [searchEnd, isByte, isSig, isP, isEnd]
        · obtain rfl := some.inj isFound
          exact ⟨le_rfl, .of_read (by rw [isSig, isEnd])⟩
        · exact ⟨pntr, rfl, before⟩
      · refine goBack sigLen (by omega) (fun p before has => ?_) fun left => ?_
        · by_contra near
          rcases eq_or_lt_of_le before with rfl | later
          · exact isEnd (some.inj (isSig.symm.trans has.read))
          · refine has.signature_bytes (show 0 < pntr - p by omega) (by omega) ?_
            rw [show p + (pntr - p) = pntr by omega, isByte, isP]
        · simp only [searchEnd, isByte, bind_eq_bind, bind_some, if_pos isP, isSig, if_neg isEnd]
    · refine goBack 1 (by omega) (fun p before has => ?_) fun left => ?_
      · refine lt_of_le_of_ne before ?_
        rintro rfl
        exact isP (some.inj (isByte.symm.trans has.byte0))
      · simp only [searchEnd, isByte, bind_eq_bind, bind_some, if_neg isP]

theorem searchEnd_spec (has : HasInt file endRecord endCenSig.toNat) (notBefore : endRecord ≤ pntr)
    (inside : pntr + endCenLen ≤ file.length)
    (last : ∀ p, endRecord < p → p + endCenLen ≤ file.length → readLeInt file p ≠ some endCenSig) :
    ∀ fuel > pntr, searchEnd file fuel pntr = some (some endRecord) := by
  obtain ⟨res, ran, sound, complete⟩ := searchEnd_last inside
  obtain ⟨found, rfl, before⟩ := complete endRecord notBefore has
  obtain ⟨below, isSig⟩ := sound found rfl
  rcases eq_or_lt_of_le before with rfl | after
  · exact ran
  · exact absurd isSig.read (last found after (by omega))

/-- The search ends at the last signature that has room for an end record behind it, and fails
just when there is none. -/
theorem searchEnd_complete (long : endCenLen ≤ file.length) :
    ∃ res, (∀ fuel > file.length - endCenLen,
        searchEnd file fuel (file.length - endCenLen) = some res) ∧
      (∀ p, res = some p ↔ (p ≤ file.length - endCenLen ∧ HasInt file p endCenSig.toNat) ∧
        ∀ q ≤ file.length - endCenLen, HasInt file q endCenSig.toNat → q ≤ p) ∧
      (res = none ↔ ∀ p ≤ file.length - endCenLen, ¬ HasInt file p endCenSig.toNat) := by
  obtain ⟨res, ran, sound, complete⟩ :=
    searchEnd_last (show file.length - endCenLen + endCenLen ≤ file.length by omega)
  refine ⟨res, ran, fun p => ⟨?_, ?_⟩, ?_, ?_⟩
  · rintro rfl
    refine ⟨sound p rfl, fun q before has => ?_⟩
    obtain ⟨found, same, below⟩ := complete q before has
    exact some.inj same ▸ below
  · rintro ⟨⟨before, has⟩, last⟩
    obtain ⟨found, rfl, below⟩ := complete p before has
    obtain ⟨inside, isSig⟩ := sound found rfl
    rw [le_antisymm (last found inside isSig) below]
  · rintro rfl p before has
    obtain ⟨found, same, -⟩ := complete p before has
    cases same
  · intro none
    cases res with
    | none => rfl
    | some found => exact absurd (sound found rfl).2 (none found (sound found rfl).1)

/-- An end record in front of a comment with a `P` and a signature that has no room. The search
goes back over both, and passes a `P` before the record. -/
theorem searchEnd_complete_comment :
    let file : List (BitVec 8) := 0x50 :: 0x50 :: [0x50, 0x4b, 5, 6] ++ .replicate 18 0 ++
      [0x20, 0x50, 0x4b, 1, 2, 0x50, 0x4b, 5, 6]
    ∀ fuel > 11, searchEnd file fuel 11 = some (some 2) := by
  intro file fuel enough
  obtain ⟨res, ran, isLast, -⟩ := @searchEnd_complete file (by decide)
  rw [show file.length - endCenLen = 11 by decide] at ran isLast
  have only : ∀ q ≤ 11, readLeInt file q = some endCenSig → q ≤ 2 := by decide
  rw [ran fuel enough, (isLast 2).mpr ⟨⟨by decide, .of_read (by decide)⟩,
    fun q before has => only q before has.read⟩]

end

/-! ## The directory -/

section
variable {file : List (BitVec 8)} {signed : Bool}

def dirHashing (file : List (BitVec 8)) (signed : Bool) :
    Hashing Nat (Option (List (BitVec 8))) where
  key := path file
  hash := fun name => ((name.bind fun name => utf8Hash signed (name ++ [0])).elim 0 BitVec.toNat)

theorem Entry.name_append (entry : Entry) : entry.name ++ [0] = unicode2Utf8 entry.unicode :=
  (unicode2Utf8_eq_append entry.unicode).symm

theorem Entry.reads (entry : Entry) : Reads signed (entry.name ++ [0]) entry.unicode := by
  rw [entry.name_append]
  exact reads_of_convertUtf8 (convertUtf8_unicode2Utf8 signed _)

variable {entry : Entry} {entries : List (Nat × Entry)} {table : HashTable Nat} {pathname : Nat}

theorem headerField_add (pos offset : Nat) :
    headerField (pos + cenFileHeaderLen) offset = pos + offset := by
  rw [headerField]
  omega

theorem CentralHeader.path (header : CentralHeader file pos entry) :
    Zip.path file (pos + cenFileHeaderLen) = some entry.name := by
  rw [Zip.path, headerField_add, header.pathLen.read]
  simp only [bind_eq_bind, bind_some]
  rw [if_pos header.name.1, header.name.2]

section
variable {pathname : Nat} {name : List (BitVec 8)} {unicode : List (BitVec 16)}
  (isPath : path file pathname = some name) (reads : Reads signed (name ++ [0]) unicode)
include isPath reads

theorem hashOf_path : (dirHashing file signed).hashOf pathname = (hashUnits unicode).toNat := by
  simp only [Hashing.hashOf, dirHashing, isPath, bind_some, utf8Hash, reads.utf8HashFrom, hashUnits,
    Option.elim_some]

theorem zipHash_path : zipHash file signed pathname = some (hashUnits unicode) := by
  rw [zipHash, isPath]
  exact reads.utf8HashFrom 0

theorem zipQuery_matches :
    (zipQuery file pathname (hashUnits unicode)).Matches (dirHashing file signed) other ↔
      path file other = some name := by
  simp only [Query.Matches, zipQuery, zipComp, isPath, bind_eq_bind, bind_some,
    Bool.and_eq_true, decide_eq_true_eq]
  cases isOther : path file other with
  | none => simp
  | some =>
    simp only [bind_some, some.injEq, decide_eq_true_eq]
    constructor
    · rintro ⟨_, rfl⟩
      rfl
    · rintro rfl
      exact ⟨(hashOf_path isOther reads).symm, rfl⟩

theorem zipQuery_congruent :
    (zipQuery file pathname (hashUnits unicode)).Congruent (dirHashing file signed) where
  deleted := fun _ => rfl
  hash_eq := fun _ isMatch => (hashOf_path ((zipQuery_matches isPath reads).mp isMatch) reads).symm

theorem zipQuery_prepares :
    (zipQuery file pathname (hashUnits unicode)).Prepares (dirHashing file signed) pathname where
  hash_eq := hashOf_path isPath reads
  equal := fun _ same => (zipQuery_matches isPath reads).mpr (same.trans isPath)

end

structure Records (file : List (BitVec 8)) (signed : Bool) (entries : List (Nat × Entry))
    (table : HashTable Nat) : Prop where
  valid : Valid (dirHashing file signed) table
  path : ∀ pathname entry, (pathname, entry) ∈ entries → Zip.path file pathname = some entry.name
  first : ∀ pathname, pathname ∈ contents table.entries ↔
    ∃ entry, entries.find? (fun other => other.2.unicode = entry.unicode) = some (pathname, entry)

section
variable (records : Records file signed entries table)
include records

theorem Records.of_mem (mem : pathname ∈ contents table.entries)
    (isPath : Zip.path file pathname = some (unicode.flatMap encode)) :
    ∃ entry, entries.find? (fun other => other.2.unicode = unicode) = some (pathname, entry) := by
  obtain ⟨entry, found⟩ := (records.first pathname).mp mem
  have isName := records.path pathname entry (mem_of_find?_eq_some found)
  have same : entry.unicode = unicode :=
    flatMap_encode_injective (some.inj (isName.symm.trans isPath))
  exact ⟨entry, same ▸ found⟩

theorem Records.mem_of_find
    (found : entries.find? (fun other => other.2.unicode = unicode) = some (pathname, entry)) :
    pathname ∈ contents table.entries ∧ Zip.path file pathname = some (unicode.flatMap encode) := by
  have same : entry.unicode = unicode := by simpa using find?_some found
  subst same
  exact ⟨(records.first pathname).mpr ⟨entry, found⟩,
    records.path pathname entry (mem_of_find?_eq_some found)⟩

theorem Records.add (isPath : Zip.path file pathname = some entry.name) :
    ∃ next, (∃ enough, ∀ fuel ≥ enough, ∃ found,
        table.findHashEntry fuel (zipQuery file pathname (hashUnits entry.unicode))
          (some (some pathname)) none = some (found, next)) ∧
      Records file signed (entries ++ [(pathname, entry)]) next := by
  obtain ⟨res, next, ⟨enough, returns⟩, valid, answers, isContents⟩ :=
    records.valid.find (zipQuery_congruent isPath entry.reads) (some (some pathname))
      (by rintro _ ⟨⟩; exact zipQuery_prepares isPath entry.reads) none
  refine ⟨next, ⟨enough, fun fuel large => ⟨res, returns fuel large⟩⟩, valid, ?_, ?_⟩
  · intro other name mem
    rcases mem_append.mp mem with mem | mem
    · exact records.path other name mem
    · rw [mem_singleton, Prod.mk.injEq] at mem
      rw [mem.1, mem.2]
      exact isPath
  · intro other
    rw [isContents, Operation.apply]
    simp only [scavenged_none, find?_append, find?_singleton]
    split_ifs with known
    · obtain ⟨earlier, mem, isMatch⟩ := known
      obtain ⟨_, found⟩ := records.of_mem mem ((zipQuery_matches isPath entry.reads).mp isMatch)
      rw [records.first]
      refine exists_congr fun name => ?_
      cases pre : entries.find? (fun other => other.2.unicode = name.unicode) with
      | some => simp
      | none =>
        simp only [reduceCtorEq, none_or, Option.ite_none_right_eq_some, false_iff,
          decide_eq_true_eq, not_and]
        intro same _
        rw [same, pre] at found
        cases found
    · have fresh : entries.find? (fun other => other.2.unicode = entry.unicode) = none := by
        cases pre : entries.find? (fun other => other.2.unicode = entry.unicode) with
        | none => rfl
        | some first =>
          obtain ⟨mem, isName⟩ := records.mem_of_find pre
          exact absurd ⟨first.1, mem, (zipQuery_matches isPath entry.reads).mpr isName⟩ known
      rw [Set.mem_insert_iff, records.first]
      constructor
      · rintro (rfl | ⟨name, found⟩)
        · exact ⟨entry, by simp [fresh]⟩
        · exact ⟨name, by simp [found]⟩
      · rintro ⟨name, found⟩
        cases pre : entries.find? (fun other => other.2.unicode = name.unicode) with
        | some =>
          rw [pre, Option.some_or, some.injEq] at found
          exact .inr ⟨name, found ▸ pre⟩
        | none =>
          rw [pre, none_or, Option.ite_none_right_eq_some, some.injEq, Prod.mk.injEq] at found
          exact .inl found.2.1.symm

end

theorem scanDirectory_records {entries : List Entry} (directory : Directory file pos entries)
    (records : Records file signed seen table) :
    ∃ final, (∃ enough, ∀ fuel ≥ enough,
        scanDirectory file signed fuel entries.length pos table = some (some final)) ∧
      Records file signed (seen ++ located pos entries) final := by
  induction entries generalizing pos seen table with
  | nil =>
    refine ⟨table, ⟨0, fun _ _ => rfl⟩, ?_⟩
    rw [located, append_nil]
    exact records
  | cons entry rest ih =>
    obtain ⟨header, others⟩ := directory
    obtain ⟨next, ⟨enough, added⟩, nextRecords⟩ := records.add header.path
    obtain ⟨final, ⟨more, scanned⟩, finalRecords⟩ := ih others nextRecords
    refine ⟨final, ⟨enough + more, fun fuel large => ?_⟩, ?_⟩
    · obtain ⟨found, isNext⟩ := added fuel (by omega)
      have inside := header.inside
      rw [Entry.headerLen] at inside
      rw [length_cons, scanDirectory, if_neg (by omega), header.signature.read]
      simp only [bind_eq_bind, bind_some]
      rw [if_neg (by decide), header.pathLen.read, header.extraLen.read, header.commentLen.read]
      simp only [bind_some, zipHash_path header.path entry.reads]
      rw [isNext]
      simp only [bind_some]
      rw [add_assoc]
      exact scanned fuel (by omega)
    · rw [located, append_cons]
      exact finalRecords

theorem records_initHashTable (signed : Bool) :
    Records file signed [] (.initHashTable hashTabSize) := by
  refine ⟨valid_initHashTable _ 8, fun _ _ mem => absurd mem not_mem_nil, fun pathname => ?_⟩
  simp [contents, live, used, HashTable.initHashTable, HashEntry.isUsed, HashEntry.empty]

end

section
variable {file : List (BitVec 8)} {signed : Bool} {entries : List (Nat × Entry)}
  {table : HashTable Nat}

theorem utf8ZipQuery_matches {entry : Entry} (isPath : path file pathname = some entry.name) :
    (utf8ZipQuery file signed (unicode2Utf8 unicode) (hashUnits unicode)).Matches
      (dirHashing file signed) pathname ↔ entry.unicode = unicode := by
  have reads := reads_of_convertUtf8 (convertUtf8_unicode2Utf8 signed unicode)
  simp only [Query.Matches, utf8ZipQuery, Bool.and_eq_true, decide_eq_true_eq]
  rw [utf8ZipComp, isPath, bind_eq_bind, bind_some, Entry.name_append, reads.utf8Comp_iff]
  constructor
  · rintro ⟨_, same⟩
    exact some.inj ((convertUtf8_unicode2Utf8 signed _).symm.trans same.convertUtf8)
  · rintro rfl
    exact ⟨(hashOf_path isPath entry.reads).symm, reads⟩

theorem utf8ZipQuery_congruent (pathname : List (BitVec 8)) (hash : BitVec 32) :
    (utf8ZipQuery file signed pathname hash).Congruent (dirHashing file signed) where
  deleted := fun _ => rfl
  hash_eq := by
    intro other isMatch
    simp only [Query.Matches, utf8ZipQuery, Bool.and_eq_true, decide_eq_true_eq] at isMatch
    exact isMatch.1

theorem Records.find (records : Records file signed entries table) (unicode : List (BitVec 16)) :
    ∃ enough, ∀ fuel ≥ enough, findArchiveDirEntry file signed fuel table (unicode2Utf8 unicode) =
        some ((entries.find? (fun other => other.2.unicode = unicode)).map (·.1)) := by
  obtain ⟨res, next, ⟨enough, returns⟩, -, answers, -⟩ := records.valid.find
    (utf8ZipQuery_congruent (unicode2Utf8 unicode) (hashUnits unicode)) none
    (fun _ isNone => by cases isNone) none
  refine ⟨enough, fun fuel large => ?_⟩
  have searched : table.findHashEntry fuel
      (utf8ZipQuery file signed (unicode2Utf8 unicode) (hashUnits unicode)) none none =
      some (res, next) := returns fuel large
  rw [findArchiveDirEntry, utf8Hash_unicode2Utf8]
  simp only [bind_eq_bind, bind_some, searched]
  rcases answers with ⟨pathname, mem, isMatch, rfl⟩ | ⟨absent, rfl⟩
  · obtain ⟨entry, found⟩ := (records.first pathname).mp mem
    have isName := records.path pathname entry (mem_of_find?_eq_some found)
    rw [(utf8ZipQuery_matches isName).mp isMatch] at found
    rw [found]
    rfl
  · cases found : entries.find? (fun other => other.2.unicode = unicode) with
    | none => rfl
    | some first =>
      obtain ⟨mem, _⟩ := records.mem_of_find found
      have same : first.2.unicode = unicode := by simpa using find?_some found
      have isName := records.path first.1 first.2 (mem_of_find?_eq_some found)
      exact absurd ((utf8ZipQuery_matches isName).mpr same) (absent first.1 mem)

end

/-! ## Archives -/

section
variable {archive : Archive} {file : List (BitVec 8)}

/-- The last signature with room for an end record, and the directory that it leads to. -/
structure Archive.Found (found : Archive) (file : List (BitVec 8)) : Prop where
  inside : found.endRecord + endCenLen ≤ file.length
  signature : HasInt file found.endRecord endCenSig.toNat
  last : ∀ p, found.endRecord < p → p + endCenLen ≤ file.length →
    readLeInt file p ≠ some endCenSig
  count : HasShort file (found.endRecord + endCenEntriesOffset) found.entries.length
  dirStart : HasInt file (found.endRecord + endCenDirStartOffset) found.dirStart
  directory : Directory file found.dirStart found.entries

theorem mapped_of_lt (small : file.length < 2 ^ 31) : mapped file = file := by
  rw [mapped, BitVec.toInt_ofNat', Int.bmod_eq_of_le (by omega) (by omega), Int.toNat_natCast,
    take_length]

theorem processArchive_records (small : file.length < 2 ^ 31)
    (begins : readLeInt file 0 = some locFileHeaderSig) (found : archive.Found file)
    (signed : Bool) :
    ∃ table, (∃ enough, ∀ fuel ≥ enough, processArchive file signed fuel = some (some table)) ∧
      Records file signed (located archive.dirStart archive.entries) table := by
  obtain ⟨table, ⟨enough, scanned⟩, records⟩ :=
    scanDirectory_records found.directory (records_initHashTable signed)
  refine ⟨table, ⟨enough + file.length, fun fuel large => ?_⟩, records⟩
  have inside := found.inside
  have recordLength : endCenLen = 22 := rfl
  have sigLength : sigLen = 4 := rfl
  rw [processArchive, if_neg (by omega), begins, mapped_of_lt small]
  simp only [bind_eq_bind, bind_some]
  rw [if_neg (by decide), if_neg (by omega),
    searchEnd_spec found.signature (by omega) (by omega) found.last fuel (by omega)]
  simp only [bind_some, found.count.read, found.dirStart.read, Int.toNat_natCast]
  rw [if_neg (by omega)]
  exact scanned fuel (by omega)

variable {entry : Entry}

theorem exists_header (directory : Directory file pos entries)
    (mem : (pathname, entry) ∈ located pos entries) :
    entry ∈ entries ∧
      ∃ header, pathname = header + cenFileHeaderLen ∧ CentralHeader file header entry := by
  induction entries generalizing pos with
  | nil => cases mem
  | cons first rest ih =>
    rcases mem_cons.mp mem with isHead | later
    · obtain ⟨rfl, rfl⟩ := Prod.mk.inj isHead
      exact ⟨mem_cons_self, pos, rfl, directory.1⟩
    · obtain ⟨isEntry, header⟩ := ih directory.2 later
      exact ⟨mem_cons_of_mem _ isEntry, header⟩

theorem intSum_eq (small : left + right ≤ 0x7fffffff) :
    intSum left right = some (left + right) := by
  rw [intSum, if_pos small]

theorem decompress_decodes (isData : Holds file offset entry.data)
    (decodes : entry.Decodes inflate) :
    decompress file inflate entry.method offset entry.data.length entry.content.length =
      some (.data entry.content entry.content.length) := by
  have bytes : bytesAt file offset entry.data.length = some entry.data := by
    have inside := isData.1
    rw [bytesAt, if_pos (by omega), Int.toNat_natCast, Int.toNat_natCast, isData.2]
  rw [decompress, bytes, if_neg (by omega)]
  rcases decodes with ⟨isStored, same⟩ | ⟨isDeflated, inflated⟩
  · rw [if_pos isStored, same, if_pos le_rfl, map_some]
  · rw [if_neg (by rw [isDeflated]; decide), if_pos isDeflated, map_some, inflated, elim_some]

theorem readEntry_decodes (small : file.length < 2 ^ 31)
    (central : CentralHeader file header entry) (localHeader : LocalHeader file entry)
    (decodes : entry.Decodes inflate) :
    readEntry file inflate (header + cenFileHeaderLen) =
      some (.data entry.content entry.content.length) := by
  have inside := localHeader.data.1
  have headerFits : intSum entry.localHeader locFileHeaderLen =
      some ((entry.localHeader : Int) + locFileHeaderLen) := intSum_eq (by omega)
  have start : intSum entry.localHeader
      (locFileHeaderLen + entry.name.length + entry.localExtraLen) =
      some ((entry.localHeader + (locFileHeaderLen + entry.name.length + entry.localExtraLen) :
        Nat) : Int) := by
    rw [intSum_eq (by omega), cast_add, cast_add, cast_add]
  rw [readEntry, headerField_add, headerField_add, headerField_add, headerField_add,
    headerField_add, central.localHeader.read, bind_eq_bind, bind_some, headerFits,
    bind_some, if_neg (by omega), if_neg (by omega), Int.toNat_natCast,
    localHeader.extraLen.read, central.pathLen.read, central.uncompLen.read, central.compLen.read,
    central.method.read]
  simp only [bind_eq_bind, bind_some, start]
  rw [intSum_eq (by omega), bind_some, if_neg (by omega)]
  exact decompress_decodes localHeader.data decodes

/-- The searches return the first entry with a name and its content. Entries are found in a
bounded number of rounds, and so is their absence. -/
def Archive.Searchable (archive : Archive) (file : List (BitVec 8)) (signed : Bool)
    (inflate : List (BitVec 8) → Int → Option (List (BitVec 8))) : Prop :=
  ∃ table, (∃ enough, ∀ fuel ≥ enough, processArchive file signed fuel = some (some table)) ∧
    ∀ unicode, ∃ enough, ∀ fuel ≥ enough,
      findArchiveDirEntry file signed fuel table (unicode2Utf8 unicode) =
          some ((archive.first unicode).map (·.1)) ∧
        ∀ pathname entry, archive.first unicode = some (pathname, entry) → entry.Decodes inflate →
            findArchiveEntry file inflate signed fuel table (unicode2Utf8 unicode) =
              some (.data entry.content entry.content.length)

theorem begins_of_processArchive
    (processed : processArchive file signed fuel = some (some table)) :
    readLeInt file 0 = some locFileHeaderSig := by
  rw [processArchive] at processed
  split at processed
  · cases processed
  · obtain ⟨magic, isMagic, processed⟩ := Option.bind_eq_some_iff.mp processed
    by_cases other : magic ≠ locFileHeaderSig
    · simp [other] at processed
    · rw [isMagic, not_not.mp other]

end

/-! ## Ambiguous comments -/

section
variable (comment : List (BitVec 8))

def sampleFile : List (BitVec 8) :=
  [ -- local header, name and data
    0x50, 0x4b, 0x03, 0x04, 0x14, 0x00, 0x00, 0x00, 0x00, 0x00, 0x00, 0x00, 0x21, 0x00, 0x83,
    0x16, 0xdc, 0x8c, 0x01, 0x00, 0x00, 0x00, 0x01, 0x00, 0x00, 0x00, 0x01, 0x00, 0x00, 0x00,
    0x61, 0x78,
    -- directory
    0x50, 0x4b, 0x01, 0x02, 0x14, 0x00, 0x14, 0x00, 0x00, 0x00, 0x00, 0x00, 0x00, 0x00, 0x21,
    0x00, 0x83, 0x16, 0xdc, 0x8c, 0x01, 0x00, 0x00, 0x00, 0x01, 0x00, 0x00, 0x00, 0x01, 0x00,
    0x00, 0x00, 0x00, 0x00, 0x00, 0x00, 0x00, 0x00, 0x00, 0x00, 0x00, 0x00, 0x00, 0x00, 0x00,
    0x00, 0x61,
    -- end record
    0x50, 0x4b, 0x05, 0x06, 0x00, 0x00, 0x00, 0x00, 0x01, 0x00, 0x01, 0x00, 0x2f, 0x00, 0x00,
    0x00, 0x20, 0x00, 0x00, 0x00,
    byteOf (BitVec.ofNat 16 comment.length) 0, byteOf (BitVec.ofNat 16 comment.length) 1] ++ comment

def sampleEntry : Entry where
  unicode := [0x61]
  method := compStored
  data := [0x78]
  content := [0x78]
  extraLen := 0
  commentLen := 0
  localHeader := 0
  localExtraLen := 0

def sampleArchive : Archive where
  entries := [sampleEntry]
  dirStart := 32
  endRecord := 79
  commentLen := comment.length

theorem sampleFile_length : (sampleFile comment).length = 101 + comment.length := by
  rw [sampleFile, length_append]
  rfl

theorem within_sampleFile (within : stop ≤ 101) : stop ≤ (sampleFile comment).length := by
  rw [sampleFile_length]
  exact le_add_right_of_le within

set_option maxRecDepth 4000 in
theorem sampleArchive_wellFormed (short : comment.length < 2 ^ 16) :
    (sampleArchive comment).WellFormed (sampleFile comment) where
  small := by
    rw [sampleFile_length]
    omega
  signature := ⟨by decide, rfl, rfl, rfl, rfl⟩
  count := show HasShort (sampleFile comment) 87 1 from ⟨by decide, rfl, rfl⟩
  dirStart := show HasInt (sampleFile comment) 95 32 from ⟨by decide, rfl, rfl, rfl, rfl⟩
  commentLen := ⟨short, rfl, rfl⟩
  length := by
    rw [sampleFile_length]
    rfl
  directory := by
    refine ⟨⟨?_, ⟨by decide, rfl, rfl, rfl, rfl⟩, ⟨by decide, rfl, rfl⟩,
      ⟨by decide, rfl, rfl, rfl, rfl⟩, ⟨by decide, rfl, rfl, rfl, rfl⟩, ⟨by decide, rfl, rfl⟩,
      ⟨by decide, rfl, rfl⟩, ⟨by decide, rfl, rfl⟩, ⟨by decide, rfl, rfl, rfl, rfl⟩, ?_, rfl⟩,
      trivial⟩
    · exact within_sampleFile _ (show 32 + sampleEntry.headerLen ≤ 101 by decide)
    · exact within_sampleFile _ (show 78 + sampleEntry.name.length ≤ 101 by decide)
  localHeaders := by
    intro entry mem
    rw [mem_singleton.mp mem]
    exact ⟨⟨by decide, rfl, rfl, rfl, rfl⟩, ⟨by decide, rfl, rfl⟩, ⟨by decide, rfl, rfl⟩,
      ⟨within_sampleFile _ (by decide), rfl⟩, ⟨within_sampleFile _ (by decide), rfl⟩⟩

end

def repeatingComment : List (BitVec 8) :=
  [0x50, 0x4b, 0x05, 0x06, 0x00, 0x00, 0x00, 0x00, 0x01, 0x00, 0x01, 0x00, 0x2f, 0x00, 0x00,
    0x00, 0x20, 0x00, 0x00, 0x00, 0x00, 0x00]

set_option maxRecDepth 10000 in
theorem found_repeatingComment :
    Archive.Found ⟨[sampleEntry], 32, 101, 0⟩ (sampleFile repeatingComment) := by
  refine ⟨by decide, ⟨by decide, rfl, rfl, rfl, rfl⟩, fun p post inside => ?_,
    ⟨by decide, rfl, rfl⟩, ⟨by decide, rfl, rfl, rfl, rfl⟩,
    (sampleArchive_wellFormed repeatingComment (by decide)).directory⟩
  change 101 < p at post
  change p + 22 ≤ 123 at inside
  omega

def ambiguousComment : List (BitVec 8) := [0x50, 0x4b, 0x05, 0x06] ++ replicate 16 0 ++ [0x01, 0x00]

end JamVM.Zip
