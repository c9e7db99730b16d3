import JamVM.Table.HashStep

/-! # Hash tables as finite sets

What the operations of a hash table do to the set of its live entries, over whole runs.
Between operations the table is valid; scavenging and removal break the chains and mend
them by resizing before they return.
-/

namespace JamVM.Table

open HashEntry hiding data
open Nat Option List List
open HashTable (dropFrom hashSize initHashTable sizeFor)

attribute [local simp] HashEntry.isUsed initHashTable

structure Hashing (Data Key : Type) where
  key : Data → Key
  hash : Key → Nat

variable {Data Key : Type}

def Hashing.hashOf (hashing : Hashing Data Key) (data : Data) : Nat :=
  hashing.hash (hashing.key data)

namespace Query

variable (hashing : Hashing Data Key) (query : Query Data)

def Matches (data : Data) : Prop := query.compare (.live data) (hashing.hashOf data) = true

structure Congruent : Prop where
  deleted : ∀ hash, query.compare .deleted hash = false
  hash_eq : ∀ data, query.Matches hashing data → query.hash = hashing.hashOf data

def Selects : Prop :=
  ∀ first second, query.Matches hashing first → query.Matches hashing second →
    hashing.key first = hashing.key second

structure Prepares (data : Data) : Prop where
  hash_eq : hashing.hashOf data = query.hash
  equal : ∀ other, hashing.key other = hashing.key data → query.Matches hashing other

end Query

def HashEntry.liveData (entry : HashEntry Data) : Option Data :=
  match entry.data with
  | some (.live data) => some data
  | some .deleted | none => none

theorem HashEntry.liveData_eq_some {entry : HashEntry Data} {data : Data} :
    entry.liveData = some data ↔ entry.data = some (.live data) := by
  obtain ⟨pointer, hash⟩ := entry
  rcases pointer with _ | _ | _ <;> simp [liveData]

def live (entries : List (HashEntry Data)) : List Data :=
  (used entries).filterMap HashEntry.liveData

def contents (entries : List (HashEntry Data)) : Set Data := {data | data ∈ live entries}

theorem live_eq_filterMap (entries : List (HashEntry Data)) :
    live entries = entries.filterMap HashEntry.liveData := by
  rw [live, used, filterMap_filter]
  refine filterMap_congr fun entry _ => ?_
  obtain ⟨_ | _, _⟩ := entry <;> rfl

theorem live_perm (same : used entries ~ used others) : live entries ~ live others :=
  same.filterMap _

structure Holds (hashing : Hashing Data Key) (table : HashTable Data) : Prop where
  counted : (used table.entries).length = table.hashCount
  stored : ∀ entry ∈ used table.entries, ∀ data, entry.data = some (.live data) →
    entry.hash = hashing.hashOf data
  distinct : ((live table.entries).map hashing.key).Nodup

structure Valid (hashing : Hashing Data Key) (table : HashTable Data) : Prop
    extends Holds hashing table where
  isPower : ∃ bits, table.entries.length = 2 ^ bits
  room : table.hashCount < table.entries.length
  chains : Chains table.entries

section
variable {hashing : Hashing Data Key} {table : HashTable Data} {query : Query Data}

theorem mem_contents_iff {entries : List (HashEntry Data)} :
    data ∈ contents entries ↔ ∃ entry ∈ used entries, entry.data = some (.live data) := by
  simp only [contents, Set.mem_ofPred_eq, live, mem_filterMap, liveData_eq_some]

variable (valid : Valid hashing table) (congruent : query.Congruent hashing)
include valid congruent

theorem Valid.probe :
    ∃ i < table.entries.length, (∀ fuel ≥ table.entries.length, table.probe fuel query = some i) ∧
      ((∃ data, (entryAt table.entries i).data = some (.live data) ∧ query.Matches hashing data) ∨
        (entryAt table.entries i).isUsed = false ∧
          (∀ data ∈ contents table.entries, ¬ query.Matches hashing data) ∧
          Probed table.entries.length (fun j => (entryAt table.entries j).isUsed = true)
            (query.hash % table.entries.length) i) := by
  obtain ⟨bits, isPower⟩ := valid.isPower
  have positive : 0 < table.entries.length := lt_of_le_of_lt (zero_le _) valid.room
  obtain ⟨free, freeInside, unused⟩ := exists_unused (valid.counted ▸ valid.room)
  let stop : Nat → Bool := fun i => (entryAt table.entries i).data.elim true fun data =>
    query.compare data (entryAt table.entries i).hash
  have stopsFree : ∀ {i}, (entryAt table.entries i).isUsed = false → stop i = true := by
    intro i unused
    have isNone : (entryAt table.entries i).data = none := by simpa using unused
    simp only [stop, isNone, elim_none]
  obtain ⟨distance, _, stops, pre, ends⟩ :=
    firstFrom_least stop (mod_lt query.hash positive) ⟨free, freeInside, stopsFree unused⟩
  have res : ∀ fuel ≥ table.entries.length, table.probe fuel query =
      some (around table.entries.length (query.hash % table.entries.length) distance) := by
    intro fuel enough
    rw [← ends fuel enough, HashTable.probe, hashSize, isPower]
    simp only [mask_eq_mod]
    congr 1
    funext i
    have isEntry : table.entry i = entryAt table.entries i := rfl
    simp only [stop, isEntry]
    cases (entryAt table.entries i).data <;> rfl
  refine ⟨_, around_lt _ distance positive, res, ?_⟩
  generalize isPlace : around table.entries.length (query.hash % table.entries.length) distance =
    i at stops
  cases isUsed : (entryAt table.entries i).isUsed with
  | true =>
    left
    obtain ⟨pointer, isPointer⟩ := isSome_iff_exists.mp isUsed
    simp only [stop, isPointer, elim_some] at stops
    cases pointer with
    | deleted => cases (congruent.deleted _).symm.trans stops
    | live data =>
      rw [valid.stored _ (entryAt_mem_used isUsed) data isPointer] at stops
      exact ⟨data, isPointer, stops⟩
  | false =>
    right
    refine ⟨rfl, fun data mem isMatch => ?_, distance, isPlace, fun earlier smaller => ?_⟩
    · obtain ⟨entry, isEntry, isLive⟩ := mem_contents_iff.mp mem
      obtain ⟨j, _, rfl⟩ := exists_entryAt isEntry
      have isHash := valid.stored _ isEntry data isLive
      have jUsed : (entryAt table.entries j).isUsed = true := by
        rw [HashEntry.isUsed, isLive]
        rfl
      have stopsThere : stop j = true := by
        simp only [stop, isLive, isHash, elim_some]
        exact isMatch
      have chain := valid.chains j jUsed
      rw [isHash, ← congruent.hash_eq data isMatch] at chain
      have occupied := chain.not_missed stopsThere jUsed pre
      rw [isPlace, isUsed] at occupied
      cases occupied
    · by_contra unused
      have wrong := stopsFree (Bool.eq_false_iff.mpr unused)
      rw [pre earlier smaller] at wrong
      cases wrong

end

/-! ## Parts of operations -/

section
variable {hashing : Hashing Data Key} {table : HashTable Data}

theorem contents_perm (same : used entries ~ used others) : contents entries = contents others :=
  Set.ext fun _ => (live_perm same).mem_iff

theorem Holds.perm (holds : Holds hashing table)
    (same : used other.entries ~ used table.entries) (count : other.hashCount = table.hashCount) :
    Holds hashing other where
  counted := by rw [same.length_eq, holds.counted, count]
  stored := fun entry mem => holds.stored entry (same.mem_iff.mp mem)
  distinct := ((live_perm same).map hashing.key).nodup_iff.mpr holds.distinct

variable {bits : Nat}

theorem Holds.resize (holds : Holds hashing table) (room : table.hashCount < 2 ^ bits) :
    ∃ next, (∀ fuel ≥ 2 ^ bits, table.resizeHash fuel (2 ^ bits) = some next) ∧
      Valid hashing next ∧ contents next.entries = contents table.entries := by
  obtain ⟨next, ends, chains, isLength, same, count⟩ := resizeHash_spec (holds.counted.symm ▸ room)
  exact ⟨next, ends, ⟨holds.perm same count, ⟨bits, isLength⟩, by rw [isLength, count]; exact room,
    chains⟩, contents_perm same⟩

theorem Holds.drop (holds : Holds hashing table) (drop : Pointer Data → Bool) : ∃ entries dropped,
      dropFrom drop table.entries table.hashCount = some (entries, dropped) ∧
      entries.length = table.entries.length ∧ dropped ≤ table.hashCount ∧
      Holds hashing ⟨entries, table.hashCount - dropped⟩ ∧
      contents entries = {data ∈ contents table.entries | drop (.live data) = false} ∧
      (dropped = 0 → entries = table.entries) := by
  have kept := used_drop drop table.entries
  have sum : (used table.entries).length =
      (used table.entries).countP (fun entry => entry.data.any drop) +
        ((used table.entries).filter fun entry => !entry.data.any drop).length := by
    rw [countP_eq_length_filter]
    exact length_eq_length_filter_add _
  have counted := holds.counted
  refine ⟨table.entries.map (dropEntry drop), _, holds.counted ▸ dropFrom_used drop _,
    length_map _, by omega, ⟨?_, ?_, ?_⟩, ?_, ?_⟩
  · rw [kept]
    dsimp only
    omega
  · intro entry mem
    rw [kept] at mem
    exact holds.stored entry (mem_of_mem_filter mem)
  · have sublist : live (table.entries.map (dropEntry drop)) <+ live table.entries := by
      rw [live, kept]
      exact filter_sublist.filterMap _
    exact holds.distinct.sublist (sublist.map _)
  · ext data
    simp only [mem_contents_iff, kept, mem_filter, Set.mem_ofPred_eq]
    constructor
    · rintro ⟨entry, ⟨mem, notDropped⟩, isLive⟩
      exact ⟨⟨entry, mem, isLive⟩, by simpa [isLive] using notDropped⟩
    · rintro ⟨⟨entry, mem, isLive⟩, notDropped⟩
      exact ⟨entry, ⟨mem, by simpa [isLive] using notDropped⟩, isLive⟩
  · intro none
    rw [countP_eq_zero] at none
    conv_rhs => rw [← map_id table.entries]
    refine map_congr_left fun entry mem => ?_
    rw [dropEntry, if_neg, id]
    intro dropped
    have isUsed : entry.isUsed = true := by
      rw [HashEntry.isUsed, isSome_iff_exists]
      obtain ⟨data, isData, _⟩ := (any_eq_true _ _).mp dropped
      exact ⟨data, isData⟩
    exact none entry (mem_filter.mpr ⟨mem, isUsed⟩) dropped

theorem Holds.add (holds : Holds hashing table) (inside : i < table.entries.length)
    (unused : (entryAt table.entries i).isUsed = false)
    (fresh : ∀ other ∈ contents table.entries, hashing.key other ≠ hashing.key data) :
    Holds hashing ⟨table.entries.set i ⟨some (.live data), hashing.hashOf data⟩,
        table.hashCount + 1⟩ ∧
      contents (table.entries.set i ⟨some (.live data), hashing.hashOf data⟩) =
        insert data (contents table.entries) := by
  obtain ⟨others, pre, post⟩ := used_set ⟨some (.live data), hashing.hashOf data⟩ inside
  rw [used_singleton_of_unused unused, nil_append] at pre
  have same := post.trans (pre.symm.cons _)
  have isLive : live (table.entries.set i ⟨some (.live data), hashing.hashOf data⟩) ~
      data :: live table.entries := same.filterMap _
  refine ⟨⟨?_, ?_, ?_⟩, Set.ext fun _ => isLive.mem_iff.trans mem_cons⟩
  · rw [same.length_eq, length_cons, holds.counted]
  · intro entry mem other isOther
    rcases mem_cons.mp (same.mem_iff.mp mem) with rfl | mem
    · cases isOther
      rfl
    · exact holds.stored entry mem other isOther
  · rw [(isLive.map _).nodup_iff, map_cons, nodup_cons]
    refine ⟨fun mem => ?_, holds.distinct⟩
    obtain ⟨other, isOther, sameKey⟩ := mem_map.mp mem
    exact fresh other isOther sameKey

def scavenged (full : Bool) (scavenge : Option (Pointer Data → Bool)) (members : Set Data) :
    Set Data :=
  match full, scavenge with
  | true, some drop => {data ∈ members | drop (.live data) = false}
  | true, none | false, _ => members

@[simp] theorem scavenged_none (full : Bool) (members : Set Data) :
    scavenged full none members = members := by
  cases full <;> rfl

def isFull (table : HashTable Data) : Bool := table.hashCount * 4 > table.hashSize * 3

theorem exists_newSize {count : Nat} (fits : count ≤ 2 ^ bits) :
    ∃ more, (if count * 3 > 2 ^ bits * 2 then 2 ^ bits * 2 else 2 ^ bits) = 2 ^ more ∧
      count < 2 ^ more ∧ 2 ^ more ≤ 2 * 2 ^ bits := by
  have positive : 0 < 2 ^ bits := Nat.two_pow_pos bits
  have twice : 2 ^ (bits + 1) = 2 ^ bits * 2 := rfl
  split_ifs
  · exact ⟨bits + 1, twice.symm, by omega, by omega⟩
  · exact ⟨bits, rfl, by omega, by omega⟩

theorem Holds.grow (holds : Holds hashing table) (chains : Chains table.entries)
    (isPower : table.entries.length = 2 ^ bits) (fits : table.hashCount ≤ table.entries.length)
    (scavenge : Option (Pointer Data → Bool)) :
    ∃ next, (∀ fuel ≥ 2 * table.entries.length, table.grow fuel scavenge = some next) ∧
      Valid hashing next ∧
      contents next.entries = scavenged (isFull table) scavenge (contents table.entries) := by
  have positive : 0 < 2 ^ bits := Nat.two_pow_pos bits
  simp only [HashTable.grow, isFull, hashSize, isPower] at fits ⊢
  by_cases full : table.hashCount * 4 > 2 ^ bits * 3
  · simp only [if_pos full, decide_eq_true full]
    cases scavenge with
    | none =>
      obtain ⟨next, ends, valid, same⟩ :=
        holds.resize (show table.hashCount < 2 ^ (bits + 1) by omega)
      exact ⟨next, fun fuel enough => ends fuel (by omega), valid, same⟩
    | some drop =>
      obtain ⟨entries, dropped, found, isLength, le, left, kept, _⟩ := holds.drop drop
      obtain ⟨more, isSize, room, bound⟩ :=
        exists_newSize (show table.hashCount - dropped ≤ 2 ^ bits by omega)
      obtain ⟨next, ends, valid, same⟩ := left.resize room
      refine ⟨next, fun fuel enough => ?_, valid, same.trans kept⟩
      simp only [found, bind_eq_bind, bind_some, isSize]
      exact ends fuel (by omega)
  · simp only [if_neg full, decide_eq_false full]
    exact ⟨table, fun _ _ => rfl, ⟨holds, ⟨bits, isPower⟩, by omega, chains⟩, rfl⟩

theorem sizeFor_spec (count : Nat) : ∀ gap bits, count ≤ 2 ^ bits + gap → ∃ more, count ≤ 2 ^ more ∧
      ∀ fuel ≥ gap, sizeFor count fuel (2 ^ bits) = 2 ^ more := by
  have stays : ∀ {bits}, count ≤ 2 ^ bits → ∀ fuel, sizeFor count fuel (2 ^ bits) = 2 ^ bits := by
    intro bits enough fuel
    cases fuel with
    | zero => rfl
    | succ => rw [sizeFor, if_neg (not_lt.mpr enough)]
  intro gap
  induction gap with
  | zero => exact fun bits enough => ⟨bits, enough, fun fuel _ => stays enough fuel⟩
  | succ gap ih =>
    intro bits near
    by_cases enough : count ≤ 2 ^ bits
    · exact ⟨bits, enough, fun fuel _ => stays enough fuel⟩
    · have positive : 0 < 2 ^ bits := Nat.two_pow_pos bits
      obtain ⟨more, fits, ends⟩ := ih (bits + 1) (by omega)
      refine ⟨more, fits, fun fuel large => ?_⟩
      obtain ⟨rest, rfl⟩ : ∃ rest, fuel = rest + 1 := ⟨fuel - 1, by omega⟩
      rw [sizeFor, if_pos (Nat.lt_of_not_le enough)]
      exact ends rest (by omega)

theorem Valid.remove (valid : Valid hashing table) (drop : Pointer Data → Bool) :
    ∃ next enough, (∀ fuel ≥ enough, table.removeEntries fuel drop = some next) ∧
      Valid hashing next ∧
      contents next.entries = {data ∈ contents table.entries | drop (.live data) = false} := by
  obtain ⟨entries, dropped, found, _, _, left, kept, unchanged⟩ := valid.drop drop
  simp only [HashTable.removeEntries, found, bind_eq_bind, bind_some]
  by_cases none : dropped = 0
  · refine ⟨table, 0, fun _ _ => ?_, valid, unchanged none ▸ kept⟩
    rw [if_neg (not_not.mpr none), unchanged none]
  · obtain ⟨bits, fits, isSize⟩ :=
      sizeFor_spec (table.hashCount - dropped) (table.hashCount - dropped) 0 (by omega)
    obtain ⟨more, isNewSize, room, bound⟩ := exists_newSize fits
    obtain ⟨next, ends, resized, same⟩ := left.resize room
    refine ⟨next, table.hashCount + 2 * 2 ^ bits, fun fuel enough => ?_, resized, same.trans kept⟩
    rw [if_pos none, ← pow_zero 2, isSize fuel (by omega), isNewSize]
    exact ends fuel (by omega)

end

/-! ## Runs -/

inductive Operation (Data : Type)
  | find (query : Query Data) (prepared : Option (Option Data))
      (scavenge : Option (Pointer Data → Bool))
  | delete (query : Query Data)
  | remove (drop : Pointer Data → Bool)

namespace Operation

def perform (fuel : Nat) (table : HashTable Data) :
    Operation Data → Option (Option (Pointer Data) × HashTable Data)
  | .find query prepared scavenge => table.findHashEntry fuel query prepared scavenge
  | .delete query => (table.deleteHashEntry fuel query).map (none, ·)
  | .remove drop => (table.removeEntries fuel drop).map (none, ·)

def Performs (operation : Operation Data) (table : HashTable Data)
    (res : Option (Pointer Data)) (next : HashTable Data) : Prop :=
  ∃ enough, ∀ fuel ≥ enough, operation.perform fuel table = some (res, next)

variable (hashing : Hashing Data Key)

def Congruent : Operation Data → Prop
  | .find query prepared _ => query.Congruent hashing ∧
      ∀ data, prepared = some (some data) → query.Prepares hashing data
  | .delete query => query.Congruent hashing ∧ query.Selects hashing
  | .remove _ => True

open Classical in
noncomputable def apply (full : Bool) (members : Set Data) : Operation Data → Set Data
  | .find query prepared scavenge =>
    if ∃ data ∈ members, query.Matches hashing data then
      members
    else
      match prepared with
      | some (some data) => scavenged full scavenge (insert data members)
      | some none | none => members
  | .delete query => {data ∈ members | ¬ query.Matches hashing data}
  | .remove drop => {data ∈ members | drop (.live data) = false}

def Answers (members : Set Data) (res : Option (Pointer Data)) : Operation Data → Prop
  | .find query prepared _ =>
    (∃ data ∈ members, query.Matches hashing data ∧ res = some (.live data)) ∨
      (∀ data ∈ members, ¬ query.Matches hashing data) ∧ res = prepared.join.map .live
  | .delete _ | .remove _ => res = none

end Operation

def fillsUp (table : HashTable Data) : Bool := (table.hashCount + 1) * 4 > table.hashSize * 3

section
variable {hashing : Hashing Data Key} {table : HashTable Data} {query : Query Data}

variable {i : Nat}

theorem Chains.replace (chains : Chains entries) (isUsed : (entryAt entries i).isUsed = true)
    (stillUsed : entry.isUsed = true) (sameHash : entry.hash = (entryAt entries i).hash) :
    Chains (entries.set i entry) :=
  chains.set (lt_of_isUsed isUsed) stillUsed (sameHash ▸ chains i isUsed)

theorem Valid.touch (valid : Valid hashing table)
    (inside : i < table.entries.length) (unused : (entryAt table.entries i).isUsed = false)
    (hash : Nat) :
    Valid hashing { table with entries := table.entries.set i ⟨none, hash⟩ } ∧
      contents (table.entries.set i ⟨none, hash⟩) = contents table.entries := by
  obtain ⟨others, pre, post⟩ := used_set ⟨none, hash⟩ inside
  rw [used_singleton_of_unused unused] at pre
  have same := post.trans pre.symm
  have sameUse : ∀ j, (entryAt (table.entries.set i ⟨none, hash⟩) j).isUsed =
      (entryAt table.entries j).isUsed := by
    intro j
    rw [entryAt_set inside]
    split_ifs with isPlace
    · rw [isPlace, unused]
      rfl
    · rfl
  refine ⟨⟨valid.toHolds.perm same rfl, ?_, ?_, ?_⟩, contents_perm same⟩
  · simpa using valid.isPower
  · simpa using valid.room
  · intro j isUsed
    simp only [sameUse, length_set] at isUsed ⊢
    have other : j ≠ i := by
      rintro rfl
      cases unused.symm.trans isUsed
    rw [entryAt_set inside, if_neg other]
    exact valid.chains j isUsed

theorem findHashEntry_of_probe (found : table.probe fuel query = some i)
    (prepared : Option (Option Data)) (scavenge : Option (Pointer Data → Bool)) :
    table.findHashEntry fuel query prepared scavenge =
      match (entryAt table.entries i).data with
      | some data => some (some data, table)
      | none =>
        match prepared with
        | none => some (none, table)
        | some none => some (none, { table with entries := table.entries.set i ⟨none, query.hash⟩ })
        | some (some data) =>
          (HashTable.grow fuel
            ⟨table.entries.set i ⟨some (.live data), query.hash⟩, table.hashCount + 1⟩
            scavenge).map (some (.live data), ·) := by
  rw [HashTable.findHashEntry, found]
  change (match (entryAt table.entries i).data with | some data => _ | none => _) = _
  cases (entryAt table.entries i).data with
  | some => rfl
  | none =>
    rcases prepared with _ | _ | data
    · rfl
    · rfl
    · simp only [map_eq_bind]
      rfl

theorem Valid.find (valid : Valid hashing table) (congruent : query.Congruent hashing)
    (prepared : Option (Option Data))
    (prepares : ∀ data, prepared = some (some data) → query.Prepares hashing data)
    (scavenge : Option (Pointer Data → Bool)) :
    ∃ res next, (Operation.find query prepared scavenge).Performs table res next ∧
      Valid hashing next ∧
      (Operation.find query prepared scavenge).Answers hashing (contents table.entries) res ∧
      contents next.entries = (Operation.find query prepared scavenge).apply hashing
        (fillsUp table) (contents table.entries) := by
  obtain ⟨i, inside, found, ⟨data, isLive, isMatch⟩ | ⟨unused, absent, probed⟩⟩ :=
    valid.probe congruent
  · have mem : data ∈ contents table.entries :=
      mem_contents_iff.mpr ⟨_, entryAt_mem_used (by rw [HashEntry.isUsed, isLive]; rfl), isLive⟩
    refine ⟨some (.live data), table, ⟨table.entries.length, fun fuel enough => ?_⟩, valid,
      .inl ⟨data, mem, isMatch, rfl⟩, (if_pos ⟨data, mem, isMatch⟩).symm⟩
    rw [Operation.perform, findHashEntry_of_probe (found fuel enough), isLive]
  · have none : (entryAt table.entries i).data = none := by
      simpa using unused
    have noMatch : ¬ ∃ data ∈ contents table.entries, query.Matches hashing data := by
      rintro ⟨data, mem, isMatch⟩
      exact absent data mem isMatch
    simp only [Operation.apply, if_neg noMatch]
    rcases prepared with _ | _ | data
    · refine ⟨.none, table, ⟨table.entries.length, fun fuel enough => ?_⟩, valid,
        .inr ⟨absent, rfl⟩, rfl⟩
      rw [Operation.perform, findHashEntry_of_probe (found fuel enough), none]
    · obtain ⟨touched, same⟩ := valid.touch inside unused query.hash
      refine ⟨.none, _, ⟨table.entries.length, fun fuel enough => ?_⟩, touched,
        .inr ⟨absent, rfl⟩, same⟩
      rw [Operation.perform, findHashEntry_of_probe (found fuel enough), none]
    · obtain ⟨isHash, equal⟩ := prepares data rfl
      obtain ⟨bits, isPower⟩ := valid.isPower
      have fresh : ∀ other ∈ contents table.entries, hashing.key other ≠ hashing.key data :=
        fun other mem same => absent other mem (equal other same)
      obtain ⟨holds, added⟩ := valid.toHolds.add inside unused fresh
      rw [isHash] at holds added
      have chains := valid.chains.set inside
        (show (⟨some (.live data), query.hash⟩ : HashEntry Data).isUsed = true from rfl) probed
      obtain ⟨next, ends, grown, isContents⟩ := holds.grow chains
        (by rw [length_set, isPower]) (by rw [length_set]; exact valid.room) scavenge
      refine ⟨some (.live data), next, ⟨2 * table.entries.length, fun fuel enough => ?_⟩, grown,
        .inr ⟨absent, rfl⟩, ?_⟩
      · rw [Operation.perform, findHashEntry_of_probe (found fuel (by omega)), none]
        dsimp only
        rw [ends fuel (by rw [length_set]; exact enough)]
        rfl
      · rw [isContents, added]
        simp only [isFull, fillsUp, hashSize, length_set]
        rfl

theorem deleteHashEntry_of_probe (found : table.probe fuel query = some i) :
    table.deleteHashEntry fuel query =
      match (entryAt table.entries i).data with
      | none => some table
      | some _ => some { table with
          entries := table.entries.set i ⟨some .deleted, (entryAt table.entries i).hash⟩ } := by
  rw [HashTable.deleteHashEntry, found]
  rfl

theorem Valid.delete (valid : Valid hashing table) (congruent : query.Congruent hashing)
    (selects : query.Selects hashing) :
    ∃ next, (Operation.delete query).Performs table none next ∧ Valid hashing next ∧
      contents next.entries = {data ∈ contents table.entries | ¬ query.Matches hashing data} := by
  obtain ⟨i, inside, found, ⟨data, isLive, isMatch⟩ | ⟨unused, absent, _⟩⟩ := valid.probe congruent
  · have isUsed : (entryAt table.entries i).isUsed = true := by
      rw [HashEntry.isUsed, isLive]
      rfl
    obtain ⟨others, pre, post⟩ := used_set ⟨some .deleted, (entryAt table.entries i).hash⟩ inside
    rw [used_singleton isUsed, singleton_append] at pre
    rw [used_singleton rfl, singleton_append] at post
    have wasLive : live table.entries ~ data :: others.filterMap HashEntry.liveData := by
      refine (pre.filterMap HashEntry.liveData).trans ?_
      rw [filterMap_cons_some (liveData_eq_some.mpr isLive)]
    have nowLive : live (table.entries.set i ⟨some .deleted, (entryAt table.entries i).hash⟩) ~
        others.filterMap HashEntry.liveData := by
      refine (post.filterMap HashEntry.liveData).trans ?_
      rw [filterMap_cons_none rfl]
    have distinct := (wasLive.map hashing.key).nodup_iff.mp valid.distinct
    rw [map_cons, nodup_cons] at distinct
    refine ⟨{ table with
        entries := table.entries.set i ⟨some .deleted, (entryAt table.entries i).hash⟩ },
      ⟨table.entries.length, fun fuel enough => ?_⟩, ⟨⟨?_, ?_, ?_⟩, ?_, ?_, ?_⟩, ?_⟩
    · rw [Operation.perform, deleteHashEntry_of_probe (found fuel enough), isLive]
      rfl
    · rw [post.length_eq, length_cons, ← length_cons, ← pre.length_eq]
      exact valid.counted
    · intro entry mem other isOther
      rcases mem_cons.mp (post.mem_iff.mp mem) with rfl | mem
      · cases isOther
      · exact valid.stored entry (pre.mem_iff.mpr (mem_cons_of_mem _ mem)) other isOther
    · exact (nowLive.map hashing.key).nodup_iff.mpr distinct.2
    · simpa using valid.isPower
    · simpa using valid.room
    · exact valid.chains.replace isUsed rfl rfl
    · ext other
      refine nowLive.mem_iff.trans ⟨fun mem => ⟨?_, fun isOther => ?_⟩, ?_⟩
      · exact wasLive.mem_iff.mpr (mem_cons_of_mem _ mem)
      · rw [selects data other isMatch isOther] at distinct
        exact distinct.1 (mem_map_of_mem mem)
      · rintro ⟨mem, noMatch⟩
        rcases mem_cons.mp (wasLive.mem_iff.mp mem) with rfl | mem
        · exact absurd isMatch noMatch
        · exact mem
  · have none : (entryAt table.entries i).data = none := by
      simpa using unused
    refine ⟨table, ⟨table.entries.length, fun fuel enough => ?_⟩, valid, ?_⟩
    · rw [Operation.perform, deleteHashEntry_of_probe (found fuel enough), none]
      rfl
    · exact Set.ext fun data => ⟨fun mem => ⟨mem, absent data mem⟩, And.left⟩

theorem Valid.performs (valid : Valid hashing table) {operation : Operation Data}
    (congruent : operation.Congruent hashing) :
    ∃ res next, operation.Performs table res next ∧ Valid hashing next ∧
      operation.Answers hashing (contents table.entries) res ∧
      contents next.entries = operation.apply hashing (fillsUp table) (contents table.entries) := by
  cases operation with
  | find query prepared scavenge => exact valid.find congruent.1 prepared congruent.2 scavenge
  | delete =>
    obtain ⟨next, performs, valid, isContents⟩ := valid.delete congruent.1 congruent.2
    exact ⟨none, next, performs, valid, rfl, isContents⟩
  | remove drop =>
    obtain ⟨next, enough, ends, valid, isContents⟩ := valid.remove drop
    refine ⟨none, next, ⟨enough, fun fuel large => ?_⟩, valid, rfl, isContents⟩
    rw [Operation.perform, ends fuel large]
    rfl

end

theorem Operation.Performs.unique {operation : Operation Data}
    (performs : operation.Performs table res first)
    (performs' : operation.Performs table other second) : res = other ∧ first = second := by
  obtain ⟨enough, ends⟩ := performs
  obtain ⟨enough', ends'⟩ := performs'
  exact Prod.mk.inj (some.inj ((ends _ (le_max_left enough enough')).symm.trans
    (ends' _ (le_max_right enough enough'))))

/-- The tables that runs of congruent operations lead to from an empty table, with the set
that the same operations make. -/
inductive History (hashing : Hashing Data Key) : HashTable Data → Set Data → Prop
  | start (bits : Nat) : History hashing (.initHashTable (2 ^ bits)) ∅
  | step {table next : HashTable Data} {members : Set Data} {operation : Operation Data}
      {res : Option (Pointer Data)} : History hashing table members →
      operation.Congruent hashing → operation.Performs table res next →
      History hashing next (operation.apply hashing (fillsUp table) members)

theorem valid_initHashTable (hashing : Hashing Data Key) (bits : Nat) :
    Valid hashing (.initHashTable (2 ^ bits)) := by
  have empty : used (replicate (2 ^ bits) (HashEntry.empty : HashEntry Data)) = [] := by
    simp [used, HashEntry.empty]
  refine ⟨⟨?_, ?_, ?_⟩, ⟨bits, by simp⟩, ?_, Chains.replicate _⟩
  · simp [empty]
  · simp [empty]
  · simp [live, empty]
  · simp only [initHashTable, length_replicate]
    exact Nat.two_pow_pos bits

theorem History.valid {hashing : Hashing Data Key} (history : History hashing table members) :
    Valid hashing table ∧ contents table.entries = members := by
  induction history with
  | start bits =>
    refine ⟨valid_initHashTable hashing bits, ?_⟩
    simp [contents, live, used, HashEntry.empty]
  | step _ congruent performs ih =>
    obtain ⟨valid, isMembers⟩ := ih
    obtain ⟨_, next, performs', nextValid, _, isContents⟩ := valid.performs congruent
    obtain ⟨_, rfl⟩ := performs.unique performs'
    exact ⟨nextValid, isMembers ▸ isContents⟩

/-- A table is the set that its operations have made: its live entries are the members, no
two of them equal, the count is that of the used slots, one slot is free, iterating visits
the used slots, and the next operation returns with an answer about the members. -/
theorem hashTable_set {hashing : Hashing Data Key} {table : HashTable Data} {members : Set Data}
    (history : History hashing table members) :
    (∀ data, data ∈ members ↔ ∃ entry ∈ table.entries, entry.data = some (.live data)) ∧
    table.entries.Pairwise (fun first second => ∀ data other,
      first.data = some (.live data) → second.data = some (.live other) →
      hashing.key data ≠ hashing.key other) ∧
    table.hashCount = table.entries.countP HashEntry.isUsed ∧
    (∃ entry ∈ table.entries, entry.data = none) ∧
    table.hashIterate = some (table.entries.filterMap HashEntry.data) ∧
    ∀ operation : Operation Data, operation.Congruent hashing →
      ∃ res next, operation.Performs table res next ∧ operation.Answers hashing members res ∧
        History hashing next (operation.apply hashing (fillsUp table) members) := by
  obtain ⟨valid, rfl⟩ := history.valid
  refine ⟨fun data => ?_, ?_, ?_, ?_, ?_, ?_⟩
  · rw [mem_contents_iff]
    constructor
    · rintro ⟨entry, mem, isLive⟩
      exact ⟨entry, mem_of_mem_filter mem, isLive⟩
    · rintro ⟨entry, mem, isLive⟩
      refine ⟨entry, mem_filter.mpr ⟨mem, ?_⟩, isLive⟩
      rw [HashEntry.isUsed, isLive]
      rfl
  · have distinct := valid.distinct
    rw [live_eq_filterMap, Nodup, pairwise_map, pairwise_filterMap] at distinct
    refine distinct.imp fun ne data other isData isOther => ?_
    exact ne data (liveData_eq_some.mpr isData) other (liveData_eq_some.mpr isOther)
  · rw [← valid.counted, used, countP_eq_length_filter]
  · obtain ⟨i, inside, unused⟩ := exists_unused (valid.counted ▸ valid.room)
    rw [entryAt_of_lt inside] at unused
    exact ⟨_, getElem_mem inside, by simpa using unused⟩
  · rw [HashTable.hashIterate, ← valid.counted]
    exact iterateFrom_used _
  · intro operation congruent
    obtain ⟨res, next, performs, _, answers, _⟩ := valid.performs congruent
    exact ⟨res, next, performs, answers, history.step congruent performs⟩

def numbers : Hashing Nat Nat := ⟨id, id⟩

def lookFor (number : Nat) : Query Nat := ⟨number, fun pointer _ => pointer = .live number⟩

theorem lookFor_congruent (number : Nat) : (lookFor number).Congruent numbers where
  deleted := fun _ => rfl
  hash_eq := by
    intro data isMatch
    cases of_decide_eq_true isMatch
    rfl

def addNumber (number : Nat) : Operation Nat := .find (lookFor number) (some (some number)) none

theorem addNumber_congruent (number : Nat) : (addNumber number).Congruent numbers := by
  refine ⟨lookFor_congruent number, fun data isData => ?_⟩
  cases isData
  exact ⟨rfl, fun other isEqual => decide_eq_true (congrArg Pointer.live isEqual)⟩

/-- Numbers are added until the table is resized, one is deleted, and a further one is probed for
past the deleted entry and added. -/
theorem hashTable_set_probed :
    let table : HashTable Nat :=
      ⟨[.empty, ⟨some .deleted, 5⟩, ⟨some (.live 1), 1⟩, ⟨some (.live 7), 7⟩], 3⟩
    ∃ members, History numbers table members ∧ 1 ∈ members ∧ 7 ∈ members ∧ 5 ∉ members ∧
      table.hashIterate = some [.deleted, .live 1, .live 7] := by
  intro table
  have performs {operation : Operation Nat} {table next : HashTable Nat}
      {res : Option (Pointer Nat)}
      (computed : ∀ rest, operation.perform (rest + 9) table = some (res, next)) :
      operation.Performs table res next := by
    refine ⟨9, fun fuel enough => ?_⟩
    obtain ⟨rest, rfl⟩ := Nat.exists_eq_add_of_le' enough
    exact computed rest
  have first : (addNumber 5).Performs (.initHashTable (2 ^ 1)) (some (.live 5))
      ⟨[.empty, ⟨some (.live 5), 5⟩], 1⟩ :=
    performs fun _ => by with_unfolding_all rfl
  have second : (addNumber 7).Performs ⟨[.empty, ⟨some (.live 5), 5⟩], 1⟩ (some (.live 7))
      ⟨[.empty, ⟨some (.live 5), 5⟩, .empty, ⟨some (.live 7), 7⟩], 2⟩ :=
    performs fun _ => by with_unfolding_all rfl
  have third : (Operation.delete (lookFor 5)).Performs
      ⟨[.empty, ⟨some (.live 5), 5⟩, .empty, ⟨some (.live 7), 7⟩], 2⟩ none
      ⟨[.empty, ⟨some .deleted, 5⟩, .empty, ⟨some (.live 7), 7⟩], 2⟩ :=
    performs fun _ => by with_unfolding_all rfl
  have fourth : (addNumber 1).Performs
      ⟨[.empty, ⟨some .deleted, 5⟩, .empty, ⟨some (.live 7), 7⟩], 2⟩ (some (.live 1)) table :=
    performs fun _ => by with_unfolding_all rfl
  have deletes : (Operation.delete (lookFor 5)).Congruent numbers := by
    refine ⟨lookFor_congruent 5, fun first second isFirst isSecond => ?_⟩
    cases of_decide_eq_true isFirst
    cases of_decide_eq_true isSecond
    rfl
  have history := (((History.start 1).step (addNumber_congruent 5) first).step
    (addNumber_congruent 7) second).step deletes third |>.step (addNumber_congruent 1) fourth
  obtain ⟨members, -, -, -, iterated, -⟩ := hashTable_set history
  exact ⟨_, history, (members 1).mpr (by decide), (members 7).mpr (by decide),
    (members 5).not.mpr (by decide), iterated⟩

end JamVM.Table
