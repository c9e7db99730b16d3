import Mathlib.Data.List.GetD
import Mathlib.Data.List.Perm.Basic
import JamVM.Table.Hash

/-! # Probe chains

Every used entry is reached from the place of its hash. Adding an entry at the end of a
chain keeps this, and dropping entries does not, but moving what is left to a new table
does it again. What a table holds is compared as a list up to permutation.
-/

namespace JamVM.Table

open List
open HashTable (dropFrom iterateFrom mask reinsert)

variable {Data : Type}

def used (entries : List (HashEntry Data)) : List (HashEntry Data) :=
  entries.filter HashEntry.isUsed

def entryAt (entries : List (HashEntry Data)) (i : Nat) : HashEntry Data := entries.getD i .empty

def Chains (entries : List (HashEntry Data)) : Prop :=
  ∀ i, (entryAt entries i).isUsed = true →
    Probed entries.length (fun j => (entryAt entries j).isUsed = true)
      ((entryAt entries i).hash % entries.length) i

theorem mask_eq_mod (bits hash : Nat) : mask (2 ^ bits) hash = hash % 2 ^ bits :=
  Nat.and_two_pow_sub_one_eq_mod hash bits

section
variable {entries : List (HashEntry Data)} {i j : Nat} {entry : HashEntry Data}

theorem entryAt_of_lt (inside : i < entries.length) : entryAt entries i = entries[i] :=
  getD_eq_getElem _ _ inside

theorem lt_of_isUsed (isUsed : (entryAt entries i).isUsed = true) : i < entries.length := by
  by_contra outside
  rw [entryAt, getD_eq_default _ _ (Nat.le_of_not_lt outside)] at isUsed
  cases isUsed

theorem entryAt_set (inside : i < entries.length) :
    entryAt (entries.set i entry) j = if j = i then entry else entryAt entries j := by
  rw [entryAt, entryAt, getD_eq_getElem?_getD, getD_eq_getElem?_getD, getElem?_set]
  obtain rfl | same := eq_or_ne i j
  · simp [inside]
  · rw [if_neg same, if_neg (Ne.symm same)]

theorem entryAt_replicate (size : Nat) :
    entryAt (replicate size (HashEntry.empty : HashEntry Data)) i = .empty := by
  by_cases inside : i < size
  · rw [entryAt_of_lt (by simpa using inside), getElem_replicate]
  · exact getD_eq_default _ _ (by simpa using inside)

theorem exists_entryAt (mem : entry ∈ used entries) :
    ∃ i < entries.length, entryAt entries i = entry := by
  obtain ⟨i, inside, isEntry⟩ := mem_iff_getElem.mp (mem_of_mem_filter mem)
  exact ⟨i, inside, (entryAt_of_lt inside).trans isEntry⟩

theorem entryAt_mem_used (isUsed : (entryAt entries i).isUsed = true) :
    entryAt entries i ∈ used entries := by
  have inside := lt_of_isUsed isUsed
  refine mem_filter.mpr ⟨?_, isUsed⟩
  rw [entryAt_of_lt inside]
  exact getElem_mem inside

theorem exists_unused (room : (used entries).length < entries.length) :
    ∃ i < entries.length, (entryAt entries i).isUsed = false := by
  by_contra full
  have all : ∀ entry ∈ entries, entry.isUsed = true := by
    intro entry mem
    obtain ⟨i, inside, rfl⟩ := mem_iff_getElem.mp mem
    by_contra unused
    exact full ⟨i, inside, by rw [entryAt_of_lt inside]; exact Bool.eq_false_iff.mpr unused⟩
  rw [used, filter_eq_self.mpr all] at room
  exact absurd room (Nat.lt_irrefl _)

theorem used_singleton (isUsed : entry.isUsed = true) : used [entry] = [entry] := by
  simp [used, isUsed]

theorem used_singleton_of_unused (unused : entry.isUsed = false) : used [entry] = [] := by
  simp [used, unused]

theorem used_set (entry : HashEntry Data) (inside : i < entries.length) : ∃ others,
    used entries ~ used [entryAt entries i] ++ others ∧
      used (entries.set i entry) ~ used [entry] ++ others := by
  refine ⟨used (entries.take i ++ entries.drop (i + 1)), ?_, ?_⟩
  · have split : entries = entries.take i ++ entries[i] :: entries.drop (i + 1) := by simp
    rw [entryAt_of_lt inside]
    conv_lhs => rw [split]
    simp only [used, ← filter_append]
    exact Perm.filter _ perm_middle
  · rw [set_eq_take_append_cons_drop, if_pos inside]
    simp only [used, ← filter_append]
    exact Perm.filter _ perm_middle

end

/-! ## Reinserting -/

variable {entries : List (HashEntry Data)} {bits : Nat}

theorem Chains.set (chains : Chains entries)
    (inside : i < entries.length) (isUsed : entry.isUsed = true)
    (probed : Probed entries.length (fun j => (entryAt entries j).isUsed = true)
      (entry.hash % entries.length) i) :
    Chains (entries.set i entry) := by
  have kept : ∀ j, (entryAt entries j).isUsed = true →
      (entryAt (entries.set i entry) j).isUsed = true := by
    intro j wasUsed
    rw [entryAt_set inside]
    split_ifs
    · exact isUsed
    · exact wasUsed
  intro j nowUsed
  rw [entryAt_set inside] at nowUsed ⊢
  rw [length_set]
  split_ifs at nowUsed ⊢ with same
  · exact same ▸ probed.mono kept
  · exact (chains j nowUsed).mono kept

theorem Chains.replicate (size : Nat) :
    Chains (replicate size (HashEntry.empty : HashEntry Data)) := by
  intro i isUsed
  rw [entryAt_replicate] at isUsed
  cases isUsed

theorem firstFree {hash : Nat}
    (isPower : entries.length = 2 ^ bits) (room : (used entries).length < entries.length) :
    ∃ i < entries.length, (entryAt entries i).isUsed = false ∧
      Probed entries.length (fun j => (entryAt entries j).isUsed = true) (hash % entries.length) i ∧
      ∀ fuel ≥ entries.length, firstFrom (fun i => (entryAt entries i).data.isNone)
        (fun i => mask entries.length (i + 1)) fuel
        (mask entries.length hash) = some i := by
  have positive : 0 < entries.length := Nat.lt_of_le_of_lt (Nat.zero_le _) room
  obtain ⟨free, freeInside, unused⟩ := exists_unused room
  have unused_iff : ∀ i, (entryAt entries i).data.isNone = !(entryAt entries i).isUsed :=
    fun i => (Option.not_isSome _).symm
  simp only [isPower, mask_eq_mod]
  rw [← isPower]
  obtain ⟨distance, _, stops, pre, ends⟩ := firstFrom_least
    (fun i => (entryAt entries i).data.isNone) (Nat.mod_lt hash positive)
    ⟨free, freeInside, by rw [unused_iff, unused]; rfl⟩
  refine ⟨_, around_lt _ distance positive, ?_, ⟨distance, rfl, fun earlier smaller => ?_⟩, ends⟩
  · simpa [unused_iff] using stops
  · simpa [unused_iff] using pre earlier smaller

theorem reinsert_spec (isUsed : entry.isUsed = true) (chains : Chains entries)
    (isPower : entries.length = 2 ^ bits) (room : (used entries).length < entries.length) :
    ∃ next, (∀ fuel ≥ entries.length, reinsert fuel entries entry = some next) ∧
      Chains next ∧ next.length = entries.length ∧ used next ~ entry :: used entries := by
  obtain ⟨i, inside, unused, probed, found⟩ := firstFree isPower room
  obtain ⟨others, pre, post⟩ := used_set entry inside
  refine ⟨entries.set i entry, fun fuel enough => ?_, chains.set inside isUsed probed,
    length_set, ?_⟩
  · rw [reinsert, if_pos isUsed]
    exact Option.bind_eq_some_iff.mpr ⟨i, found fuel enough, rfl⟩
  · rw [used_singleton_of_unused unused] at pre
    rw [used_singleton isUsed] at post
    exact post.trans (pre.symm.cons entry)

theorem foldlM_reinsert (bits : Nat) (old : List (HashEntry Data)) :
    ∀ {entries : List (HashEntry Data)}, Chains entries → entries.length = 2 ^ bits →
      (used old).length + (used entries).length < entries.length →
      ∃ next, (∀ fuel ≥ entries.length, old.foldlM (reinsert fuel) entries = some next) ∧
        Chains next ∧ next.length = entries.length ∧ used next ~ used old ++ used entries := by
  induction old with
  | nil => exact fun {entries} chains _ _ => ⟨entries, fun _ _ => rfl, chains, rfl, .rfl⟩
  | cons entry old ih =>
    intro entries chains isPower room
    simp only [foldlM_cons]
    cases isUsed : entry.isUsed with
    | false =>
      have skipped : used (entry :: old) = used old := by simp [used, isUsed]
      rw [skipped] at room ⊢
      obtain ⟨next, folded, rest⟩ := ih chains isPower room
      refine ⟨next, fun fuel enough => ?_, rest⟩
      rw [reinsert, if_neg (by simp [isUsed])]
      exact folded fuel enough
    | true =>
      have first : used (entry :: old) = entry :: used old := by simp [used, isUsed]
      rw [first] at room ⊢
      rw [length_cons] at room
      obtain ⟨next, inserted, nextChains, sameLength, isNext⟩ :=
        reinsert_spec isUsed chains isPower (by omega)
      have count := isNext.length_eq
      rw [length_cons] at count
      obtain ⟨last, folded, lastChains, lastLength, isLast⟩ :=
        ih nextChains (sameLength.trans isPower) (by omega)
      refine ⟨last, fun fuel enough => ?_, lastChains, lastLength.trans sameLength, ?_⟩
      · rw [inserted fuel enough]
        exact folded fuel (sameLength.symm ▸ enough)
      · calc used last ~ used old ++ used next := isLast
          _ ~ used old ++ entry :: used entries := isNext.append_left _
          _ ~ entry :: used old ++ used entries := perm_middle

theorem resizeHash_spec {table : HashTable Data} (room : (used table.entries).length < 2 ^ bits) :
    ∃ next, (∀ fuel ≥ 2 ^ bits, HashTable.resizeHash fuel table (2 ^ bits) = some next) ∧
      Chains next.entries ∧ next.entries.length = 2 ^ bits ∧
      used next.entries ~ used table.entries ∧ next.hashCount = table.hashCount := by
  have empty : used (replicate (2 ^ bits) (HashEntry.empty : HashEntry Data)) = [] := by
    simp [used, HashEntry.isUsed, HashEntry.empty]
  have reversed : used table.entries.reverse ~ used table.entries := (reverse_perm _).filter _
  obtain ⟨entries, folded, chains, isLength, isUsed⟩ :=
    foldlM_reinsert bits table.entries.reverse (Chains.replicate (2 ^ bits)) (by simp)
      (by simp [empty, reversed.length_eq, room])
  rw [empty, append_nil] at isUsed
  refine ⟨{ table with entries }, fun fuel enough => ?_, chains, by simpa using isLength,
    isUsed.trans reversed, rfl⟩
  exact Option.bind_eq_some_iff.mpr ⟨entries, folded fuel (by simpa using enough), rfl⟩

/-! ## Loops over the entries -/

variable (drop : Pointer Data → Bool)

def dropEntry (entry : HashEntry Data) : HashEntry Data :=
  if entry.data.any drop then { entry with data := none } else entry

@[simp] theorem used_cons_none (hash : Nat) (rest : List (HashEntry Data)) :
    used (⟨none, hash⟩ :: rest) = used rest := rfl

@[simp] theorem used_cons_some (data : Pointer Data) (hash : Nat) (rest : List (HashEntry Data)) :
    used (⟨some data, hash⟩ :: rest) = ⟨some data, hash⟩ :: used rest := rfl

theorem iterateFrom_zero (entries : List (HashEntry Data)) : iterateFrom entries 0 = some [] := by
  cases entries <;> rfl

theorem dropFrom_zero (entries : List (HashEntry Data)) :
    dropFrom drop entries 0 = some (entries, 0) := by
  cases entries <;> rfl

theorem iterateFrom_used (entries : List (HashEntry Data)) :
    iterateFrom entries (used entries).length = some (entries.filterMap HashEntry.data) := by
  induction entries with
  | nil => rfl
  | cons entry rest ih =>
    obtain ⟨data, hash⟩ := entry
    cases data with
    | none =>
      rw [used_cons_none, filterMap_cons_none rfl, ← ih]
      cases (used rest).length with
      | zero => rw [iterateFrom_zero, iterateFrom_zero]
      | succ => rfl
    | some data =>
      change (iterateFrom rest (used rest).length).map (data :: ·) = _
      rw [ih]
      rfl

theorem dropFrom_used (entries : List (HashEntry Data)) :
    dropFrom drop entries (used entries).length = some (entries.map (dropEntry drop),
        (used entries).countP fun entry => entry.data.any drop) := by
  induction entries with
  | nil => rfl
  | cons entry rest ih =>
    obtain ⟨data, hash⟩ := entry
    cases data with
    | none =>
      change dropFrom drop (⟨none, hash⟩ :: rest) (used rest).length =
        some (⟨none, hash⟩ :: rest.map (dropEntry drop),
          (used rest).countP fun entry => entry.data.any drop)
      cases count : (used rest).length with
      | zero =>
        rw [count, dropFrom_zero] at ih
        obtain ⟨same, none⟩ := Prod.mk.inj (Option.some.inj ih)
        rw [dropFrom_zero, ← same, ← none]
      | succ =>
        rw [dropFrom]
        rw [← count, ih]
        rfl
    | some data =>
      change (dropFrom drop rest (used rest).length).map _ = _
      rw [ih, Option.map_some]
      cases dropped : drop data <;> simp [dropEntry, dropped]

theorem used_drop (entries : List (HashEntry Data)) : used (entries.map (dropEntry drop)) =
      (used entries).filter (fun entry => !entry.data.any drop) := by
  induction entries with
  | nil => rfl
  | cons entry rest ih =>
    obtain ⟨data, hash⟩ := entry
    cases data with
    | none => exact ih
    | some data =>
      rw [map_cons, used_cons_some, filter_cons, ← ih]
      cases dropped : drop data <;> simp [dropEntry, dropped]

end JamVM.Table
