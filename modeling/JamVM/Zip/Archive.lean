import JamVM.Foundation.Bytes
import JamVM.Text.Utf8Table

/-! # Zip archives

The directory of a zip archive is kept in a hash table of pointers into the mapped file, and
files are found through it. A pointer is an offset into the file. A result of `none` is
undefined behaviour, or a run that needs more rounds; `some none` is a result of `NULL`.
-/

namespace JamVM.Zip

open Foundation Table Text

def sigLen : Nat := 4

def endCenSig : Int := 0x06054b50
def endCenLen : Nat := 22
def endCenEntriesOffset : Nat := 8
def endCenDirStartOffset : Nat := 16
def endCenCommentLenOffset : Nat := 20

def cenFileHeaderSig : Int := 0x02014b50
def cenFileHeaderLen : Nat := 46
def cenFileCompMethOffset : Nat := 10
def cenFileCompLenOffset : Nat := 20
def cenFileUncompLenOffset : Nat := 24
def cenFilePathLenOffset : Nat := 28
def cenFileExtraLenOffset : Nat := 30
def cenFileCommentLenOffset : Nat := 32
def cenFileLocalHdrOffset : Nat := 42

def locFileHeaderSig : Int := 0x04034b50
def locFileHeaderLen : Nat := 30
def locFilePathLenOffset : Nat := 26
def locFileExtraOffset : Nat := 28

def compStored : Nat := 0
def compDeflated : Nat := 8

section
variable (file : List (BitVec 8))

def readLeInt (p : Nat) : Option Int := do
  let p0 ← file[p]?
  let p1 ← file[p + 1]?
  let p2 ← file[p + 2]?
  let p3 ← file[p + 3]?
  some (p0.setWidth 32 ||| p1.setWidth 32 <<< 8 ||| p2.setWidth 32 <<< 16 |||
    p3.setWidth 32 <<< 24).toInt

def readLeShort (p : Nat) : Option Nat := do
  let p0 ← file[p]?
  let p1 ← file[p + 1]?
  some (p0.setWidth 32 ||| p1.setWidth 32 <<< 8).toNat

def headerField (pntr offset : Nat) : Nat := pntr + offset - cenFileHeaderLen

def path (pntr : Nat) : Option (List (BitVec 8)) := do
  let pathLen ← readLeShort file (headerField pntr cenFilePathLenOffset)
  if pntr + pathLen ≤ file.length then some ((file.drop pntr).take pathLen) else none

section
variable (signed : Bool)

def zipHash (pntr : Nat) : Option (BitVec 32) := do
  let name ← path file pntr
  utf8Hash signed (name ++ [0])

def zipComp (path1 path2 : Nat) : Option Bool := do
  let name1 ← path file path1
  let name2 ← path file path2
  some (name1 = name2)

def utf8ZipComp (path1 : List (BitVec 8)) (path2 : Nat) : Option Bool := do
  let name2 ← path file path2
  utf8Comp signed path1 (name2 ++ [0])

def zipQuery (pathname : Nat) (hash : BitVec 32) : Query Nat where
  hash := hash.toNat
  compare := fun pointer stored => match pointer with
    | .deleted => false
    | .live other => hash.toNat = stored && zipComp file pathname other = some true

def utf8ZipQuery (pathname : List (BitVec 8)) (hash : BitVec 32) : Query Nat where
  hash := hash.toNat
  compare := fun pointer stored => match pointer with
    | .deleted => false
    | .live other => hash.toNat = stored && utf8ZipComp file signed pathname other = some true

def searchEnd : Nat → Nat → Option (Option Nat)
  | 0, _ => none
  | fuel + 1, pntr => do
      let first ← file[pntr]?
      if first = 0x50 then
        let sig ← readLeInt file pntr
        if sig = endCenSig then
          some (some pntr)
        else if sigLen ≤ pntr then
          searchEnd fuel (pntr - sigLen)
        else
          some none
      else if 1 ≤ pntr then
        searchEnd fuel (pntr - 1)
      else
        some none

def scanDirectory (fuel : Nat) : Nat → Nat → HashTable Nat → Option (Option (HashTable Nat))
  | 0, _, table => some (some table)
  | entries + 1, pntr, table =>
    if pntr + cenFileHeaderLen > file.length then
      some none
    else do
      let sig ← readLeInt file pntr
      if sig ≠ cenFileHeaderSig then
        some none
      else
        let pathLen ← readLeShort file (pntr + cenFilePathLenOffset)
        let extraLen ← readLeShort file (pntr + cenFileExtraLenOffset)
        let commentLen ← readLeShort file (pntr + cenFileCommentLenOffset)
        let pathname := pntr + cenFileHeaderLen
        let hash ← zipHash file signed pathname
        let (_, table) ← table.findHashEntry fuel (zipQuery file pathname hash)
          (some (some pathname)) none
        scanDirectory fuel entries (pathname + (pathLen + extraLen + commentLen)) table

def hashTabSize : Nat := 2 ^ 8

/-- The bytes that are mapped. The length is kept in an `int`, and is refused by `mmap` or found
too small if it is not positive. -/
def mapped : List (BitVec 8) := file.take (BitVec.ofNat 32 file.length).toInt.toNat

def processArchive (fuel : Nat) : Option (Option (HashTable Nat)) :=
  if file.length < sigLen then
    some none
  else do
    let magic ← readLeInt file 0
    let data := mapped file
    if magic ≠ locFileHeaderSig then
      some none
    else if data.length < endCenLen then
      some none
    else
      match ← searchEnd data fuel (data.length - endCenLen) with
      | none => some none
      | some pntr =>
        let entries ← readLeShort data (pntr + endCenEntriesOffset)
        let start ← readLeInt data (pntr + endCenDirStartOffset)
        -- a negative offset points in front of the mapping
        if start < 0 ∧ 0 < entries then
          none
        else
          scanDirectory data signed fuel entries start.toNat (.initHashTable hashTabSize)

def findArchiveDirEntry (fuel : Nat) (dirHash : HashTable Nat)
    (pathname : List (BitVec 8)) : Option (Option Nat) := do
  let hash ← utf8Hash signed pathname
  let (found, _) ← dirHash.findHashEntry fuel (utf8ZipQuery file signed pathname hash) none none
  match found with
  | none => some none
  | some (.live pntr) => some (some pntr)
  | some .deleted => none

end

def intSum (left right : Int) : Option Int :=
  if left + right ≤ 0x7fffffff then some (left + right) else none

def bytesAt (offset length : Int) : Option (List (BitVec 8)) :=
  if 0 ≤ offset ∧ 0 ≤ length ∧ offset + length ≤ file.length then
    some ((file.drop offset.toNat).take length.toNat)
  else
    none

/-- What `findArchiveEntry` returns: `NULL`, or the bytes written to a buffer, with its length.
`sysMalloc` ends the VM for a negative length. -/
inductive Extracted
  | null
  | exitVM
  | data (bytes : List (BitVec 8)) (uncompLen : Int)
  deriving DecidableEq

variable (inflate : List (BitVec 8) → Int → Option (List (BitVec 8)))

/-- The buffer for the data with the given compression method. `inflate` is what the library
makes of raw deflated data in a buffer of the given size, if it accepts the data. -/
def decompress (compMethod : Nat) (offset compLen uncompLen : Int) : Option Extracted :=
  if uncompLen < 0 then
    some .exitVM
  else if compMethod = compStored then
    -- the buffer has `uncompLen` bytes, and `compLen` are written
    if compLen ≤ uncompLen then
      (bytesAt file offset compLen).map (.data · uncompLen)
    else
      none
  else if compMethod = compDeflated then
    (bytesAt file offset compLen).map fun data =>
      (inflate data uncompLen).elim .null (.data · uncompLen)
  else
    some .null

def readEntry (dirEntry : Nat) : Option Extracted := do
  let offset ← readLeInt file (headerField dirEntry cenFileLocalHdrOffset)
  let headerStop ← intSum offset locFileHeaderLen
  if headerStop > file.length then
    some .null
  else if offset < 0 then
    none
  else
    let extraLen ← readLeShort file (offset.toNat + locFileExtraOffset)
    let pathLen ← readLeShort file (headerField dirEntry cenFilePathLenOffset)
    let uncompLen ← readLeInt file (headerField dirEntry cenFileUncompLenOffset)
    let compLen ← readLeInt file (headerField dirEntry cenFileCompLenOffset)
    let compMethod ← readLeShort file (headerField dirEntry cenFileCompMethOffset)
    let offset ← intSum offset (locFileHeaderLen + pathLen + extraLen)
    let dataStop ← intSum offset compLen
    if dataStop > file.length then
      some .null
    else
      decompress file inflate compMethod offset compLen uncompLen

def findArchiveEntry (signed : Bool)
    (fuel : Nat) (dirHash : HashTable Nat) (pathname : List (BitVec 8)) : Option Extracted := do
  match ← findArchiveDirEntry file signed fuel dirHash pathname with
  | none => some .null
  | some dirEntry => readEntry file inflate dirEntry

end

/-! ## The format -/

section
variable (file : List (BitVec 8))

structure HasShort (pos value : Nat) : Prop where
  bound : value < 2 ^ 16
  byte0 : file[pos]? = some (byteOf (BitVec.ofNat 16 value) 0)
  byte1 : file[pos + 1]? = some (byteOf (BitVec.ofNat 16 value) 1)

structure HasInt (pos value : Nat) : Prop where
  bound : value < 2 ^ 31
  byte0 : file[pos]? = some (byteOf (BitVec.ofNat 32 value) 0)
  byte1 : file[pos + 1]? = some (byteOf (BitVec.ofNat 32 value) 1)
  byte2 : file[pos + 2]? = some (byteOf (BitVec.ofNat 32 value) 2)
  byte3 : file[pos + 3]? = some (byteOf (BitVec.ofNat 32 value) 3)

structure Entry where
  unicode : List (BitVec 16)
  method : Nat
  data : List (BitVec 8)
  content : List (BitVec 8)
  extraLen : Nat
  commentLen : Nat
  localHeader : Nat
  localExtraLen : Nat

def Entry.name (entry : Entry) : List (BitVec 8) := entry.unicode.flatMap encode

def Entry.headerLen (entry : Entry) : Nat :=
  cenFileHeaderLen + (entry.name.length + entry.extraLen + entry.commentLen)

def Holds (pos : Nat) (bytes : List (BitVec 8)) : Prop :=
  pos + bytes.length ≤ file.length ∧ (file.drop pos).take bytes.length = bytes

structure CentralHeader (pos : Nat) (entry : Entry) : Prop where
  inside : pos + entry.headerLen ≤ file.length
  signature : HasInt file pos cenFileHeaderSig.toNat
  method : HasShort file (pos + cenFileCompMethOffset) entry.method
  compLen : HasInt file (pos + cenFileCompLenOffset) entry.data.length
  uncompLen : HasInt file (pos + cenFileUncompLenOffset) entry.content.length
  pathLen : HasShort file (pos + cenFilePathLenOffset) entry.name.length
  extraLen : HasShort file (pos + cenFileExtraLenOffset) entry.extraLen
  commentLen : HasShort file (pos + cenFileCommentLenOffset) entry.commentLen
  localHeader : HasInt file (pos + cenFileLocalHdrOffset) entry.localHeader
  name : Holds file (pos + cenFileHeaderLen) entry.name

structure LocalHeader (entry : Entry) : Prop where
  signature : HasInt file entry.localHeader locFileHeaderSig.toNat
  pathLen : HasShort file (entry.localHeader + locFilePathLenOffset) entry.name.length
  extraLen : HasShort file (entry.localHeader + locFileExtraOffset) entry.localExtraLen
  name : Holds file (entry.localHeader + locFileHeaderLen) entry.name
  data : Holds file (entry.localHeader +
    (locFileHeaderLen + entry.name.length + entry.localExtraLen)) entry.data

def Directory : Nat → List Entry → Prop
  | _, [] => True
  | pos, entry :: rest => CentralHeader file pos entry ∧ Directory (pos + entry.headerLen) rest

end

def located : Nat → List Entry → List (Nat × Entry)
  | _, [] => []
  | pos, entry :: rest => (pos + cenFileHeaderLen, entry) :: located (pos + entry.headerLen) rest

structure Archive where
  entries : List Entry
  dirStart : Nat
  endRecord : Nat
  commentLen : Nat

/-- A well-formed archive below 2 GB. From 65535 entries on the end record holds the largest
number, and the real one is in a zip64 record. -/
structure Archive.WellFormed (archive : Archive) (file : List (BitVec 8)) : Prop where
  small : file.length < 2 ^ 31
  signature : HasInt file archive.endRecord endCenSig.toNat
  count : HasShort file (archive.endRecord + endCenEntriesOffset) (min archive.entries.length 65535)
  dirStart : HasInt file (archive.endRecord + endCenDirStartOffset) archive.dirStart
  commentLen : HasShort file (archive.endRecord + endCenCommentLenOffset) archive.commentLen
  length : archive.endRecord + endCenLen + archive.commentLen = file.length
  directory : Directory file archive.dirStart archive.entries
  localHeaders : ∀ entry ∈ archive.entries, LocalHeader file entry

def Archive.first (archive : Archive) (unicode : List (BitVec 16)) : Option (Nat × Entry) :=
  (located archive.dirStart archive.entries).find? fun located => located.2.unicode = unicode

def Entry.Decodes (inflate : List (BitVec 8) → Int → Option (List (BitVec 8))) (entry : Entry) :
    Prop :=
  entry.method = compStored ∧ entry.data = entry.content ∨
    entry.method = compDeflated ∧ inflate entry.data entry.content.length = some entry.content

end JamVM.Zip
