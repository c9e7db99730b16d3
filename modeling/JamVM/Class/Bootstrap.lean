import JamVM.Class.ConstantPool

/-! # Bootstrap methods

The table of a class's bootstrap methods is one block. It begins with the offsets of the
methods, and the indices of each method and its arguments follow. All accesses are aligned,
so the block is a memory of half words.
-/

namespace JamVM.Class.Bootstrap

open Nat Function
open BitVec (ofNat toNat_ofNat)
open List (append_assoc flatMap_cons length_append length_cons length_nil map_cons replicate
  sum_cons)

abbrev Block := Nat → BitVec 16

namespace Block

variable (bigEndian : Bool) (block : Block)

def int (i : Nat) : BitVec 32 :=
  if bigEndian then block (2 * i) ++ block (2 * i + 1) else block (2 * i + 1) ++ block (2 * i)

def setInt (i : Nat) (value : BitVec 32) : Block :=
  let high := value.extractLsb' 16 16
  let low := value.setWidth 16
  if bigEndian then
    update (update block (2 * i) high) (2 * i + 1) low
  else
    update (update block (2 * i) low) (2 * i + 1) high

/-! The macros of `class.h`. -/

def bootstrapOffset (idx : Nat) : BitVec 32 := block.int bigEndian idx

def bootstrapMethodRef (idx : Nat) : BitVec 16 :=
  block ((block.bootstrapOffset bigEndian idx).toNat / 2)

def bootstrapMethodArg (idx arg : Nat) : BitVec 16 :=
  block ((block.bootstrapOffset bigEndian idx).toNat / 2 + (arg + 1))

def bootstrapMethodArgCount (idx : Nat) : Nat :=
  (block.bootstrapOffset bigEndian (idx + 1) - block.bootstrapOffset bigEndian idx).toNat / 2 - 1

end Block

/-! ## Parsing -/

/-- The variables of the loops. `offsets` counts `int`s from the start of the block and
`indexes` half words. -/
structure Table where
  ptr : List (BitVec 8)
  offsets : Nat
  indexes : Nat
  size : Nat
  block : Block

namespace Table

variable (bigEndian : Bool)

def storeOffset (table : Table) : Except Failure Table :=
  if 4 * (table.offsets + 1) ≤ table.size then
    .ok { table with
      offsets := table.offsets + 1
      block := table.block.setInt bigEndian table.offsets (BitVec.ofNat 32 (2 * table.indexes)) }
  else
    .error .undefined

def storeIndex (table : Table) (index : BitVec 32) : Except Failure Table :=
  if 2 * (table.indexes + 1) ≤ table.size then
    .ok { table with
      indexes := table.indexes + 1
      block := update table.block table.indexes (index.setWidth 16) }
  else
    .error .undefined

def storeArgs : Nat → Table → Except Failure Table
  | 0, table => .ok table
  | numArgs + 1, table => do
    let (argIdx, ptr) ← readU2 table.ptr
    let table ← { table with ptr }.storeIndex argIdx
    storeArgs numArgs table

def storeMethods : Nat → Table → Except Failure Table
  | 0, table => .ok table
  | numMethods + 1, table => do
    let (methodRef, ptr) ← readU2 table.ptr
    let (numArgs, ptr) ← readU2 ptr
    let table ← { table with ptr }.storeOffset bigEndian
    let table ← table.storeIndex methodRef
    let table ← storeArgs numArgs.toNat table
    storeMethods numMethods table

end Table

/-- The part of `parseClass` for the attribute, whose block is not initialised. A negative
`int` is a size that `sysMalloc` does not get. -/
def parseBootstrapMethods (bigEndian : Bool) (uninitialised : Block) (attrLength : BitVec 32)
    (ptr : List (BitVec 8)) : Except Failure Table := do
  let (numMethods, ptr) ← readU2 ptr
  let size := attrLength + numMethods * 2 + 2
  if size.toInt < 0 then
    .error .exitVM
  else
    let table ← Table.storeMethods bigEndian numMethods.toNat
      ⟨ptr, 0, numMethods.toNat * 2 + 2, size.toNat, uninitialised⟩
    table.storeOffset bigEndian

/-! ## The class-file format -/

structure BootstrapMethod where
  ref : BitVec 16
  args : List (BitVec 16)
  few : args.length < 2 ^ 16

namespace BootstrapMethod

def bytes (method : BootstrapMethod) : List (BitVec 8) :=
  bytes2 method.ref ++ (bytes2 (BitVec.ofNat 16 method.args.length) ++ method.args.flatMap bytes2)

def attributeBytes (methods : List BootstrapMethod) : List (BitVec 8) :=
  bytes2 (BitVec.ofNat 16 methods.length) ++ methods.flatMap bytes

def cells (methods : List BootstrapMethod) : Nat :=
  (methods.map fun method => method.args.length + 1).sum

end BootstrapMethod

open BootstrapMethod

/-! ## The block -/

section
variable {bigEndian : Bool} {block changed : Block}

theorem Block.int_setInt (i : Nat) (value : BitVec 32) :
    (block.setInt bigEndian i value).int bigEndian i = value := by
  have joined : value.extractLsb' 16 16 ++ value.setWidth 16 = value := by
    apply BitVec.eq_of_getLsbD_eq
    intro bit inside
    rw [BitVec.getLsbD_append]
    by_cases low : bit < 16
    · simp [low]
    · simp [low, show 16 + (bit - 16) = bit by omega]
      omega
  unfold int setInt
  cases bigEndian <;> simp [joined]

theorem Block.setInt_of_ne (value : BitVec 32) (outside : cell / 2 ≠ i) :
    block.setInt bigEndian i value cell = block cell := by
  have first : cell ≠ 2 * i := by omega
  have second : cell ≠ 2 * i + 1 := by omega
  unfold setInt
  cases bigEndian <;> simp [first, second]

theorem Block.int_congr (same : ∀ cell, cell / 2 = i → changed cell = block cell) :
    changed.int bigEndian i = block.int bigEndian i := by
  unfold int
  rw [same (2 * i) (by omega), same (2 * i + 1) (by omega)]

/-- The block has the methods, with offsets from `i` on and indices from `cell` on, and the
offset of the end. -/
def Holds (bigEndian : Bool) (block : Block) : Nat → Nat → List BootstrapMethod → Prop
  | i, cell, [] => block.int bigEndian i = BitVec.ofNat 32 (2 * cell)
  | i, cell, method :: methods =>
    block.int bigEndian i = BitVec.ofNat 32 (2 * cell) ∧ block cell = method.ref ∧
      (∀ arg (inside : arg < method.args.length), block (cell + (arg + 1)) = method.args[arg]) ∧
      Holds bigEndian block (i + 1) (cell + (method.args.length + 1)) methods

theorem Holds.offset (holds : Holds bigEndian block i cell methods) :
    block.int bigEndian i = ofNat 32 (2 * cell) := by
  cases methods with
  | nil => exact holds
  | cons => exact holds.1

end

/-! ## The loops -/

theorem toNat_length (few : length < 2 ^ 16) : ((ofNat 16 length).setWidth 32).toNat = length := by
  rw [BitVec.toNat_setWidth, toNat_ofNat]
  omega

theorem setWidth_index (index : BitVec 16) : (index.setWidth 32).setWidth 16 = index := by
  simp

structure Stored (table post : Table) (rest : List (BitVec 8)) (cells : Nat) : Prop where
  ptr : post.ptr = rest
  size : post.size = table.size
  indexes : post.indexes = table.indexes + cells

theorem storeIndex_eq {table : Table} (index : BitVec 16)
    (room : 2 * (table.indexes + 1) ≤ table.size) :
    table.storeIndex (index.setWidth 32) = .ok { table with
      indexes := table.indexes + 1
      block := update table.block table.indexes index } := by
  rw [Table.storeIndex, if_pos room, setWidth_index]

theorem storeArgs_stores (args : List (BitVec 16)) {table : Table} {rest : List (BitVec 8)}
    (ptr : table.ptr = args.flatMap bytes2 ++ rest)
    (room : 2 * (table.indexes + args.length) ≤ table.size) :
    ∃ post, Table.storeArgs args.length table = .ok post ∧
      Stored table post rest args.length ∧ post.offsets = table.offsets ∧
      (∀ arg (inside : arg < args.length), post.block (table.indexes + arg) = args[arg]) ∧
      ∀ cell < table.indexes, post.block cell = table.block cell := by
  induction args generalizing table with
  | nil => exact ⟨table, rfl, ⟨ptr, rfl, rfl⟩, rfl, by simp, fun _ _ => rfl⟩
  | cons arg args ih =>
    rw [length_cons] at room
    rw [flatMap_cons, append_assoc] at ptr
    obtain ⟨post, stored, done, offsets, holds, kept⟩ := @ih { table with
        ptr := args.flatMap bytes2 ++ rest
        indexes := table.indexes + 1
        block := update table.block table.indexes arg } rfl (by simp; omega)
    refine ⟨post, ?_, ⟨done.ptr, done.size, ?_⟩, offsets, ?_, ?_⟩
    · rw [length_cons, Table.storeArgs, ptr, readU2_bytes2]
      simp only [Bind.bind, Except.bind]
      rw [storeIndex_eq arg (by simp; omega)]
      exact stored
    · rw [done.indexes, length_cons]
      simp
      omega
    · intro place inside
      cases place with
      | zero =>
        rw [kept _ (by simp)]
        simp
      | succ place =>
        have next := holds place (by simpa using inside)
        rwa [add_right_comm, add_assoc] at next
    · intro cell below
      rw [kept cell (by simp; omega)]
      exact update_of_ne (by omega) _ _

theorem storeMethods_stores {bigEndian : Bool} (methods : List BootstrapMethod) {table : Table}
    {rest : List (BitVec 8)} (ptr : table.ptr = methods.flatMap bytes ++ rest)
    (room : 2 * (table.indexes + cells methods) ≤ table.size)
    (apart : 2 * (table.offsets + methods.length + 1) ≤ table.indexes) :
    ∃ post, (Table.storeMethods bigEndian methods.length table).bind
        (Table.storeOffset bigEndian) = .ok post ∧
      Stored table post rest (cells methods) ∧
      Holds bigEndian post.block table.offsets table.indexes methods ∧
      ∀ cell < table.indexes, cell / 2 < table.offsets ∨ table.offsets + methods.length < cell / 2 →
        post.block cell = table.block cell := by
  induction methods generalizing table with
  | nil =>
    refine ⟨{ table with
      offsets := table.offsets + 1
      block := table.block.setInt bigEndian table.offsets (ofNat 32 (2 * table.indexes)) },
      ?_, ⟨ptr, rfl, rfl⟩, Block.int_setInt .., fun cell _ outside => ?_⟩
    · exact if_pos (by simp [cells] at room; omega)
    · exact Block.setInt_of_ne _ (by simp at outside; omega)
  | cons method methods ih =>
    simp only [cells, map_cons, sum_cons, length_cons] at room apart
    rw [flatMap_cons, bytes, append_assoc, append_assoc, append_assoc] at ptr
    let offset := table.block.setInt bigEndian table.offsets (ofNat 32 (2 * table.indexes))
    obtain ⟨middle, storedArgs, done, offsets, args, kept⟩ := @storeArgs_stores method.args
      { table with
        ptr := method.args.flatMap bytes2 ++ (methods.flatMap bytes ++ rest)
        offsets := table.offsets + 1
        indexes := table.indexes + 1
        block := update offset table.indexes method.ref } _ rfl (by simp; omega)
    have indexes : middle.indexes = table.indexes + (method.args.length + 1) := by
      rw [done.indexes]
      simp
      omega
    obtain ⟨post, stored, finished, holds, same⟩ := @ih middle done.ptr
      (by rw [indexes, done.size]; simp only [cells]; omega)
      (by rw [indexes, offsets]; simp; omega)
    have unchanged (cell : Nat) (below : cell < table.indexes)
        (outside : cell / 2 < table.offsets + 1 ∨ table.offsets + 1 + methods.length < cell / 2) :
        post.block cell = offset cell := by
      rw [same cell (by omega) (by rw [offsets]; exact outside), kept cell (by simp; omega)]
      exact update_of_ne (by omega) _ _
    have fresh (cell : Nat) (least : table.indexes ≤ cell) (below : cell < middle.indexes) :
        post.block cell = middle.block cell :=
      same cell below (by rw [offsets]; simp; omega)
    refine ⟨post, ?_, ⟨finished.ptr, finished.size.trans done.size, ?_⟩, ⟨?_, ?_, ?_, ?_⟩, ?_⟩
    · rw [length_cons, Table.storeMethods, ptr, readU2_bytes2]
      simp only [Bind.bind, Except.bind]
      rw [readU2_bytes2]
      simp only [Table.storeOffset]
      rw [if_pos (by omega)]
      dsimp only
      rw [storeIndex_eq method.ref (by dsimp only; omega)]
      dsimp only
      rw [toNat_length method.few, storedArgs]
      exact stored
    · rw [finished.indexes, indexes]
      simp only [cells, map_cons, sum_cons]
      omega
    · rw [Block.int_congr fun cell place => unchanged cell (by omega) (by omega)]
      exact Block.int_setInt ..
    · rw [fresh _ le_rfl (by omega), kept _ (by simp)]
      simp
    · intro arg inside
      rw [fresh _ (by omega) (by omega)]
      have stored := args arg inside
      rwa [add_right_comm, add_assoc] at stored
    · rwa [indexes, offsets] at holds
    · intro cell below outside
      rw [unchanged cell below (by simp at outside; omega)]
      exact Block.setInt_of_ne _ (by omega)

/-! The loops keep the size, whatever they read. -/

theorem ok_of_bind {first : Except Failure α} (both : first.bind next = .ok result) :
    ∃ value, first = .ok value ∧ next value = .ok result := by
  cases first with
  | error => cases both
  | ok value => exact ⟨value, rfl, both⟩

section
variable {bigEndian : Bool} {table post : Table}

theorem storeIndex_size (stored : table.storeIndex index = .ok post) : post.size = table.size := by
  rw [Table.storeIndex] at stored
  split at stored <;> cases stored
  rfl

theorem storeOffset_size (stored : table.storeOffset bigEndian = .ok post) :
    post.size = table.size := by
  rw [Table.storeOffset] at stored
  split at stored <;> cases stored
  rfl

theorem storeArgs_size (stored : Table.storeArgs numArgs table = .ok post) :
    post.size = table.size := by
  induction numArgs generalizing table with
  | zero =>
    cases stored
    rfl
  | succ numArgs ih =>
    obtain ⟨⟨argIdx, ptr⟩, -, stored⟩ := ok_of_bind stored
    obtain ⟨middle, index, stored⟩ := ok_of_bind stored
    rw [ih stored, storeIndex_size index]

theorem storeMethods_size (stored : Table.storeMethods bigEndian numMethods table = .ok post) :
    post.size = table.size := by
  induction numMethods generalizing table with
  | zero =>
    cases stored
    rfl
  | succ numMethods ih =>
    obtain ⟨⟨methodRef, ptr⟩, -, stored⟩ := ok_of_bind stored
    obtain ⟨⟨numArgs, ptr⟩, -, stored⟩ := ok_of_bind stored
    obtain ⟨first, offset, stored⟩ := ok_of_bind stored
    obtain ⟨second, index, stored⟩ := ok_of_bind stored
    obtain ⟨third, args, stored⟩ := ok_of_bind stored
    rw [ih stored, storeArgs_size args, storeIndex_size index, storeOffset_size offset]

end

/-! ## The accessors -/

theorem length_flatMap_bytes2 (args : List (BitVec 16)) :
    (args.flatMap bytes2).length = 2 * args.length := by
  simp [bytes2, mul_comm]

theorem length_attributeBytes (methods : List BootstrapMethod) :
    (attributeBytes methods).length = 2 + 2 * methods.length + 2 * cells methods := by
  have length : (methods.flatMap bytes).length = 2 * methods.length + 2 * cells methods := by
    induction methods with
    | nil => rfl
    | cons method methods ih =>
      rw [flatMap_cons, length_append, ih]
      simp only [bytes, bytes2, cells, length_append, length_flatMap_bytes2, length_cons,
        length_nil, map_cons, sum_cons]
      omega
  rw [attributeBytes, length_append, length]
  simp only [bytes2, length_cons, length_nil]
  omega

def requestedSize (methods : List BootstrapMethod) : BitVec 32 :=
  ofNat 32 (attributeBytes methods).length + (ofNat 16 methods.length).setWidth 32 * 2 + 2

theorem toNat_requestedSize (few : methods.length < 2 ^ 16) :
    (requestedSize methods).toNat =
      ((attributeBytes methods).length + 2 * methods.length + 2) % 2 ^ 32 := by
  simp only [requestedSize, BitVec.toNat_add, BitVec.toNat_mul, toNat_length few, toNat_ofNat,
    show (2 : BitVec 32).toNat = 2 from rfl]
  omega

theorem Holds.method (holds : Holds bigEndian block i cell methods)
    (inside : idx < methods.length) :
    ∃ start, start + (methods[idx].args.length + 1) ≤ cell + cells methods ∧
      block.int bigEndian (i + idx) = ofNat 32 (2 * start) ∧
      block.int bigEndian (i + idx + 1) = ofNat 32 (2 * (start + (methods[idx].args.length + 1))) ∧
      block start = methods[idx].ref ∧
      ∀ arg (known : arg < methods[idx].args.length),
        block (start + (arg + 1)) = methods[idx].args[arg] := by
  induction methods generalizing i cell idx with
  | nil => simp at inside
  | cons method methods ih =>
    obtain ⟨offset, ref, args, rest⟩ := holds
    simp only [cells, map_cons, sum_cons]
    cases idx with
    | zero => exact ⟨cell, by simp, offset, rest.offset, ref, args⟩
    | succ =>
      obtain ⟨start, least, found⟩ := ih rest (by simpa using inside)
      rw [add_assoc i, add_comm 1] at found
      refine ⟨start, ?_, found⟩
      rw [cells] at least
      simp at least ⊢
      omega

/-- The table of a well-formed attribute fills its block, and the accessors return what has
been encoded, unless the size of the block is no `int`. -/
theorem bootstrapMethods_exact (bigEndian : Bool) (uninitialised : Block)
    (methods : List BootstrapMethod) (rest : List (BitVec 8)) (few : methods.length < 2 ^ 16) :
    (∃ table, parseBootstrapMethods bigEndian uninitialised
        (ofNat 32 (attributeBytes methods).length) (attributeBytes methods ++ rest) =
          .ok table ∧ table.ptr = rest ∧
      table.size = (attributeBytes methods).length + 2 * methods.length + 2 ∧
      2 * table.indexes = table.size ∧
      ∀ idx (inside : idx < methods.length),
        table.block.bootstrapMethodRef bigEndian idx = methods[idx].ref ∧
        table.block.bootstrapMethodArgCount bigEndian idx = methods[idx].args.length ∧
        ∀ arg (known : arg < methods[idx].args.length),
          table.block.bootstrapMethodArg bigEndian idx arg = methods[idx].args[arg]) ↔
      (attributeBytes methods).length + 2 * methods.length + 2 < 2 ^ 31 := by
  have length := length_attributeBytes methods
  have parses : parseBootstrapMethods bigEndian uninitialised
      (ofNat 32 (attributeBytes methods).length) (attributeBytes methods ++ rest) =
        if (requestedSize methods).toInt < 0 then .error .exitVM
        else (Table.storeMethods bigEndian methods.length ⟨methods.flatMap bytes ++ rest, 0,
          methods.length * 2 + 2, (requestedSize methods).toNat, uninitialised⟩).bind
            (Table.storeOffset bigEndian) := by
    rw [parseBootstrapMethods, attributeBytes, append_assoc, readU2_bytes2, ← attributeBytes]
    dsimp only [Bind.bind, Except.bind]
    rw [toNat_length few]
    rfl
  have size := toNat_requestedSize few
  rw [parses]
  constructor
  · rintro ⟨table, parsed, -, isSize, -⟩
    split at parsed
    · cases parsed
    · rename_i positive
      obtain ⟨stored, methodsStored, offset⟩ := ok_of_bind parsed
      have kept := (storeOffset_size offset).trans (storeMethods_size methodsStored)
      rw [BitVec.toInt_neg_iff] at positive
      dsimp only at kept
      omega
  intro bounded
  obtain ⟨table, stored, done, holds, -⟩ := @storeMethods_stores bigEndian methods
    ⟨methods.flatMap bytes ++ rest, 0, methods.length * 2 + 2,
      (attributeBytes methods).length + 2 * methods.length + 2, uninitialised⟩ rest rfl
    (by dsimp only; omega) (by dsimp only; omega)
  obtain ⟨ptr, isSize, indexes⟩ := done
  dsimp only at isSize indexes
  refine ⟨table, ?_, ptr, isSize, by omega, ?_⟩
  · rw [if_neg (by rw [BitVec.toInt_neg_iff]; omega), size, mod_eq_of_lt (by omega)]
    exact stored
  · intro idx inside
    obtain ⟨start, least, first, next, ref, args⟩ := holds.method inside
    rw [zero_add] at first next
    dsimp only at least
    have offset : (table.block.bootstrapOffset bigEndian idx).toNat = 2 * start := by
      rw [Block.bootstrapOffset, first, toNat_ofNat]
      omega
    refine ⟨?_, ?_, fun arg known => ?_⟩
    · rw [Block.bootstrapMethodRef, offset, Nat.mul_div_cancel_left _ (by decide), ref]
    · rw [Block.bootstrapMethodArgCount, Block.bootstrapOffset, Block.bootstrapOffset, first, next,
        BitVec.toNat_sub, toNat_ofNat, toNat_ofNat]
      omega
    · rw [Block.bootstrapMethodArg, offset, Nat.mul_div_cancel_left _ (by decide), args arg known]

/-- Methods with two and no arguments. -/
theorem bootstrapMethods_exact_pair : ∃ table, parseBootstrapMethods true (fun _ => 0) 14
        ([0, 2, 0, 5, 0, 2, 0, 6, 1, 7, 0, 8, 0, 0] ++ []) = .ok table ∧
      table.block.bootstrapMethodArgCount true 0 = 2 ∧
      table.block.bootstrapMethodArg true 0 1 = 0x107 := by
  obtain ⟨table, parsed, -, -, -, exact⟩ := (bootstrapMethods_exact true (fun _ => 0)
    [⟨5, [6, 0x107], by decide⟩, ⟨8, [], by decide⟩] [] (by decide)).mpr (by decide)
  obtain ⟨-, count, arg⟩ := exact 0 (by decide)
  exact ⟨table, parsed, count, arg 1 (by decide)⟩

theorem cells_replicate (count : Nat) (method : BootstrapMethod) :
    cells (replicate count method) = count * (method.args.length + 1) := by
  simp [cells]

/-- An attribute of almost 2 gigabytes, whose block has more bytes than an `int` can say. -/
theorem bootstrapMethods_overflow :
    let methods : List BootstrapMethod :=
      replicate 16384 ⟨0, replicate 65533 0, by rw [List.length_replicate]; decide⟩
    (attributeBytes methods).length < 2 ^ 31 ∧ parseBootstrapMethods false (fun _ => 0)
        (ofNat 32 (attributeBytes methods).length) (attributeBytes methods) =
          .error .exitVM := by
  intro methods
  have count : methods.length = 16384 := List.length_replicate
  have length : (attributeBytes methods).length = 2147450882 := by
    rw [length_attributeBytes, count, cells_replicate, List.length_replicate]
  refine ⟨by omega, ?_⟩
  rw [length, parseBootstrapMethods, attributeBytes, readU2_bytes2, count]
  rfl

end JamVM.Class.Bootstrap
