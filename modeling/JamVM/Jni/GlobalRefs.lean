import Mathlib.Data.Multiset.AddSub

/-! # JNI global references

One of the tables of global references, in which deleted references leave holes. The holes are
closed when the table is full.
-/

namespace JamVM.Jni

open Multiset Function

def grefListIncr : Nat := 32

/-- `none` is `NULL`. The entries from `next` on are not initialised. -/
structure GlobalRefTable (Object : Type u) where
  table : Nat → Option Object
  size : Nat
  next : Nat
  hasDeleted : Bool

inductive Call (Object : Type u)
  | add (ref : Option Object)
  | delete (ref : Option Object)

def Call.apply {Object : Type u} [DecidableEq Object] (held : Multiset Object) :
    Call Object → Multiset Object
  | .add ref => ref.elim held (· ::ₘ held)
  | .delete ref => ref.elim held held.erase

namespace GlobalRefTable

variable {Object : Type u}

/-- The loop that closes the holes, up to an index. The result is the table and `j`. -/
def compact (table : Nat → Option Object) : Nat → (Nat → Option Object) × Nat
  | 0 => (table, 0)
  | i + 1 =>
    let (table, j) := compact table i
    if (table i).isSome then (update table j (table i), j + 1) else (table, j)

section
variable (refs : GlobalRefTable Object)

def makeRoom : GlobalRefTable Object :=
  if refs.next = refs.size then
    let refs :=
      if refs.hasDeleted then
        let (table, j) := compact refs.table refs.size
        { refs with table := table, hasDeleted := false, next := j }
      else
        refs
    if refs.next + grefListIncr > refs.size then
      { refs with size := refs.next + grefListIncr }
    else
      refs
  else
    refs

def addJNIGref : Option Object → GlobalRefTable Object
  | none => refs
  | some ref =>
    let refs := refs.makeRoom
    { refs with table := update refs.table refs.next (some ref), next := refs.next + 1 }

def entries (table : Nat → Option Object) (n : Nat) : List Object := (List.range n).filterMap table

def marked : List Object := entries refs.table refs.next

end

variable [DecidableEq Object]

def search (table : Nat → Option Object) (ref : Option Object) : Nat → Option Nat
  | 0 => none
  | i + 1 => if table i = ref then some i else search table ref i

def delJNIGref (refs : GlobalRefTable Object) (ref : Option Object) :
    GlobalRefTable Object × Bool :=
  match search refs.table ref refs.next with
  | none => (refs, false)
  | some i =>
    if i = refs.next - 1 then ({ refs with next := i }, true)
    else ({ refs with table := update refs.table i none, hasDeleted := true }, true)

def call (refs : GlobalRefTable Object) : Call Object → GlobalRefTable Object
  | .add ref => refs.addJNIGref ref
  | .delete ref => (refs.delJNIGref ref).1

/-! ## The entries of a table -/

section
variable {table : Nat → Option Object} {n i : Nat}

omit [DecidableEq Object]

theorem entries_succ (table : Nat → Option Object) (n : Nat) :
    entries table (n + 1) = entries table n ++ (table n).toList := by
  rw [entries, List.range_succ, List.filterMap_append]
  cases isEntry : table n <;> simp [entries, isEntry]

theorem entries_update (outside : n ≤ i) (value : Option Object) :
    entries (update table i value) n = entries table n :=
  List.filterMap_congr fun _ mem => update_of_ne ((List.mem_range.mp mem).trans_le outside).ne ..

theorem compact_spec (table : Nat → Option Object) (n : Nat) :
    (compact table n).2 ≤ n ∧ (∀ k ≥ n, (compact table n).1 k = table k) ∧
      entries (compact table n).1 (compact table n).2 = entries table n := by
  induction n with
  | zero => exact ⟨le_rfl, fun _ _ => rfl, rfl⟩
  | succ n ih =>
    obtain ⟨low, same, kept⟩ := ih
    rw [entries_succ, ← kept, ← same n le_rfl, compact]
    generalize compact table n = res at *
    dsimp only
    cases isEntry : res.1 n with
    | none => simpa using ⟨Nat.le_succ_of_le low, fun k high => same k (by omega)⟩
    | some =>
      refine ⟨Nat.succ_le_succ low, fun k high => ?_, ?_⟩
      · exact (update_of_ne (by omega) ..).trans (same k (by omega))
      · show entries (update _ _ _) (_ + 1) = _
        rw [entries_succ, update_self, entries_update le_rfl]

theorem entries_delete {ref : Object} (inside : i < n) (isEntry : table i = some ref) :
    (ref :: entries (update table i none) n).Perm (entries table n) := by
  induction n with
  | zero => cases inside
  | succ n ih =>
    rw [entries_succ, entries_succ]
    obtain rfl | same := eq_or_ne i n
    · rw [isEntry, update_self, entries_update le_rfl]
      simpa using (List.perm_append_singleton ref _).symm
    · rw [update_of_ne (Ne.symm same)]
      exact (ih (by omega)).append_right _

end

theorem search_spec (table : Nat → Option Object) (ref : Option Object) (n : Nat) :
    (search table ref n = none ∧ ∀ i < n, table i ≠ ref) ∨
      ∃ i < n, search table ref n = some i ∧ table i = ref := by
  induction n with
  | zero => exact .inl ⟨rfl, nofun⟩
  | succ n =>
    by_cases found : table n = ref
    · exact .inr ⟨n, n.lt_succ_self, if_pos found, found⟩
    · rw [search, if_neg found]
      grind

theorem delJNIGref_found_iff (refs : GlobalRefTable Object) (ref : Option Object) :
    (refs.delJNIGref ref).2 = true ↔ ∃ i < refs.next, refs.table i = ref := by
  rw [delJNIGref]
  obtain ⟨searched, absent⟩ | ⟨i, inside, searched, isEntry⟩ :=
    search_spec refs.table ref refs.next
  · rw [searched]
    simpa using absent
  · rw [searched]
    dsimp only
    split_ifs <;> exact iff_of_true rfl ⟨i, inside, isEntry⟩

/-! ## Runs -/

variable {refs : GlobalRefTable Object}

omit [DecidableEq Object] in
theorem makeRoom_spec (bounded : refs.next ≤ refs.size) :
    refs.makeRoom.next < refs.makeRoom.size ∧ refs.makeRoom.marked = refs.marked := by
  have incr : grefListIncr = 32 := rfl
  obtain ⟨low, -, kept⟩ := compact_spec refs.table refs.size
  simp only [makeRoom]
  split_ifs with full holes short short
  · exact ⟨by dsimp only; omega, by simpa only [marked, full] using kept⟩
  · exact ⟨by omega, by simpa only [marked, full] using kept⟩
  · exact ⟨by dsimp only; omega, rfl⟩
  · exact ⟨by omega, rfl⟩
  · exact ⟨by omega, rfl⟩

omit [DecidableEq Object] in
theorem marked_add (bounded : refs.next ≤ refs.size) (ref : Object) :
    (refs.addJNIGref (some ref)).marked = refs.marked ++ [ref] := by
  rw [← (makeRoom_spec bounded).2]
  show entries (update _ _ _) (_ + 1) = _
  rw [entries_succ, update_self, entries_update le_rfl]
  rfl

omit [DecidableEq Object] in
theorem mem_marked {ref : Object} :
    ref ∈ refs.marked ↔ ∃ i < refs.next, refs.table i = some ref := by
  simp [marked, entries]

theorem call_spec (bounded : refs.next ≤ refs.size) (next : Call Object) :
    (refs.call next).next ≤ (refs.call next).size ∧
      (refs.call next).marked = next.apply refs.marked := by
  match next with
  | .add none => exact ⟨bounded, rfl⟩
  | .add (some ref) =>
    refine ⟨(makeRoom_spec bounded).1, ?_⟩
    rw [call, marked_add bounded]
    exact coe_eq_coe.mpr (List.perm_append_singleton ref _)
  | .delete ref =>
    obtain ⟨searched, absent⟩ | ⟨i, inside, searched, isEntry⟩ :=
      search_spec refs.table ref refs.next
    · rw [call, delJNIGref, searched]
      refine ⟨bounded, ?_⟩
      cases ref with
      | none => rfl
      | some => exact (erase_of_notMem (by simpa [mem_marked] using absent)).symm
    · have kept : (refs.delJNIGref ref).1.marked = entries (update refs.table i none) refs.next ∧
          (refs.delJNIGref ref).1.next ≤ refs.next ∧ (refs.delJNIGref ref).1.size = refs.size := by
        rw [delJNIGref, searched]
        dsimp only
        split_ifs with last
        · have isNext : refs.next = i + 1 := by omega
          rw [isNext, entries_succ, update_self, entries_update le_rfl]
          simp [marked]
        · exact ⟨rfl, le_rfl, rfl⟩
      refine ⟨?_, ?_⟩
      · rw [call]; omega
      rw [call, kept.1]
      cases ref with
      | none =>
        rw [Function.update_eq_self_iff.mpr isEntry.symm]
        rfl
      | some =>
        have perm := coe_eq_coe.mpr (entries_delete inside isEntry)
        rw [Call.apply, Option.elim_some, marked, ← perm, ← cons_coe, erase_cons_head]

theorem calls_spec (bounded : refs.next ≤ refs.size) (calls : List (Call Object)) :
    (calls.foldl call refs).next ≤ (calls.foldl call refs).size ∧
      (calls.foldl call refs).marked = calls.foldl Call.apply refs.marked := by
  induction calls generalizing refs with
  | nil => exact ⟨bounded, rfl⟩
  | cons next rest ih =>
    obtain ⟨nextBounded, isApply⟩ := call_spec bounded next
    rw [List.foldl_cons, List.foldl_cons, ← isApply]
    exact ih nextBounded

/-- The references in the table are those added and not yet deleted. A reference is deleted if
and only if it is in the table, `NULL` is found if and only if there is a hole, and an entry is
free when one is added. -/
theorem marked_eq_held (table : Nat → Option Object) (calls : List (Call Object)) :
    let refs := calls.foldl call ⟨table, 0, 0, false⟩
    refs.marked = calls.foldl Call.apply 0 ∧ refs.next ≤ refs.size ∧
      refs.makeRoom.next < refs.makeRoom.size ∧
      (∀ ref, (refs.delJNIGref (some ref)).2 = true ↔ ref ∈ calls.foldl Call.apply 0) ∧
      ((refs.delJNIGref none).2 = true ↔ ∃ i < refs.next, refs.table i = none) := by
  intro refs
  obtain ⟨bounded, isApply⟩ := @calls_spec _ _ ⟨table, 0, 0, false⟩ le_rfl calls
  refine ⟨isApply, bounded, (makeRoom_spec bounded).1, fun ref => ?_,
    delJNIGref_found_iff refs none⟩
  rw [show calls.foldl Call.apply 0 = refs.marked from isApply.symm, mem_coe, mem_marked,
    delJNIGref_found_iff]

/-- `NULL` is found in a hole. -/
theorem delJNIGref_null :
    ((([.add (some 1), .add (some 2), .delete (some 1)] : List (Call Nat)).foldl call
      ⟨fun _ => none, 0, 0, false⟩).delJNIGref none).2 = true := by
  decide

end GlobalRefTable

end JamVM.Jni
