import Mathlib.Algebra.Order.Ring.Int
import Mathlib.Data.List.Count
import JamVM.Foundation.Probing

/-! # Hash tables

The open-addressing tables of `hash.h` and `hash.c`. A table is used with macros for the
hash, the comparison and so on, which are parameters here. Sizes and counts are natural
numbers, and a hash is the bit pattern of its `int`.
-/

namespace JamVM.Table

inductive Pointer (Data : Type)
  | deleted
  | live (data : Data)
  deriving DecidableEq

structure HashEntry (Data : Type) where
  data : Option (Pointer Data)
  hash : Nat
  deriving DecidableEq

structure HashTable (Data : Type) where
  entries : List (HashEntry Data)
  hashCount : Nat
  deriving DecidableEq

/-- The argument of a search, as `HASH` and `COMPARE` see it. The second argument of the
comparison is the hash that is stored with the pointer. -/
structure Query (Data : Type) where
  hash : Nat
  compare : Pointer Data → Nat → Bool

variable {Data : Type}

def HashEntry.empty : HashEntry Data := ⟨none, 0⟩

def HashEntry.isUsed (entry : HashEntry Data) : Bool := entry.data.isSome

namespace HashTable

def hashSize (table : HashTable Data) : Nat := table.entries.length

def initHashTable (initialSize : Nat) : HashTable Data where
  entries := List.replicate initialSize .empty
  hashCount := 0

def entry (table : HashTable Data) (i : Nat) : HashEntry Data := table.entries.getD i .empty

def mask (size hash : Nat) : Nat := hash &&& (size - 1)

/-! ## Resizing -/

def reinsert (fuel : Nat) (newTable : List (HashEntry Data)) (entry : HashEntry Data) :
    Option (List (HashEntry Data)) :=
  if entry.isUsed then do
    let newIndex ← firstFrom (fun i => (newTable.getD i .empty).data.isNone)
      (fun i => mask newTable.length (i + 1)) fuel (mask newTable.length entry.hash)
    some (newTable.set newIndex entry)
  else
    some newTable

def resizeHash (fuel : Nat) (table : HashTable Data) (newSize : Nat) : Option (HashTable Data) := do
  let entries ← table.entries.reverse.foldlM (reinsert fuel) (List.replicate newSize .empty)
  some { table with entries }

/-! ## Loops over the entries -/

/-- The loop of `hashIterate`, which counts the entries that are used. Reading past the
array gives `none`. -/
def iterateFrom : List (HashEntry Data) → Nat → Option (List (Pointer Data))
  | _, 0 => some []
  | [], _ + 1 => none
  | entry :: rest, count + 1 =>
    match entry.data with
    | none => iterateFrom rest (count + 1)
    | some data => (iterateFrom rest count).map (data :: ·)

def hashIterate (table : HashTable Data) : Option (List (Pointer Data)) :=
  iterateFrom table.entries table.hashCount

/-- The loop of `hashIterateP` and that of scavenging: the slots of the pointers to be
dropped are set to `NULL`. -/
def dropFrom (drop : Pointer Data → Bool) : List (HashEntry Data) → Nat →
    Option (List (HashEntry Data) × Nat)
  | entries, 0 => some (entries, 0)
  | [], _ + 1 => none
  | entry :: rest, count + 1 =>
    match entry.data with
    | none => (dropFrom drop rest (count + 1)).map fun res => (entry :: res.1, res.2)
    | some data =>
      (dropFrom drop rest count).map fun res =>
        if drop data then ({ entry with data := none } :: res.1, res.2 + 1)
        else (entry :: res.1, res.2)

/-! ## Operations -/

def probe (fuel : Nat) (table : HashTable Data) (query : Query Data) : Option Nat :=
  firstFrom (fun i => match (table.entry i).data with
      | none => true
      | some data => query.compare data (table.entry i).hash)
    (fun i => mask table.hashSize (i + 1)) fuel (mask table.hashSize query.hash)

/-- The table after a new entry was counted, resized if it is more than three quarters
full. With `SCAVENGE` entries are dropped first. -/
def grow (fuel : Nat) (table : HashTable Data) (scavenge : Option (Pointer Data → Bool)) :
    Option (HashTable Data) :=
  if table.hashCount * 4 > table.hashSize * 3 then
    match scavenge with
    | some drop => do
        let (entries, dropped) ← dropFrom drop table.entries table.hashCount
        let hashCount := table.hashCount - dropped
        let newSize :=
          if hashCount * 3 > table.hashSize * 2 then table.hashSize * 2 else table.hashSize
        resizeHash fuel ⟨entries, hashCount⟩ newSize
    | none => resizeHash fuel table (table.hashSize * 2)
  else
    some table

/-- The macro `findHashEntry`. `prepared` is the result of `PREPARE` if an absent entry is to
be added; it may be `NULL`. -/
def findHashEntry (fuel : Nat) (table : HashTable Data) (query : Query Data)
    (prepared : Option (Option Data)) (scavenge : Option (Pointer Data → Bool)) :
    Option (Option (Pointer Data) × HashTable Data) := do
  let i ← probe fuel table query
  match (table.entry i).data with
  | some data => some (some data, table)
  | none =>
    match prepared with
    | none => some (none, table)
    | some none => some (none, { table with entries := table.entries.set i ⟨none, query.hash⟩ })
    | some (some data) => do
        let grown ← grow fuel
          ⟨table.entries.set i ⟨some (.live data), query.hash⟩, table.hashCount + 1⟩ scavenge
        some (some (.live data), grown)

def deleteHashEntry (fuel : Nat) (table : HashTable Data) (query : Query Data) :
    Option (HashTable Data) := do
  let i ← probe fuel table query
  match (table.entry i).data with
  | none => some table
  | some _ =>
    some { table with
      entries := table.entries.set i ⟨some .deleted, (table.entry i).hash⟩ }

def sizeFor (count : Nat) : Nat → Nat → Nat
  | 0, size => size
  | fuel + 1, size => if size < count then sizeFor count fuel (size * 2) else size

def removeEntries (fuel : Nat) (table : HashTable Data) (drop : Pointer Data → Bool) :
    Option (HashTable Data) := do
  let (entries, dropped) ← dropFrom drop table.entries table.hashCount
  if dropped ≠ 0 then
    let hashCount := table.hashCount - dropped
    let size := sizeFor hashCount fuel 1
    let size := if hashCount * 3 > size * 2 then size * 2 else size
    resizeHash fuel ⟨entries, hashCount⟩ size
  else
    some ⟨entries, table.hashCount⟩

end HashTable

end JamVM.Table
