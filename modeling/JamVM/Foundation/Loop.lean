import Mathlib.Logic.Function.Basic

/-! # Loops

A `while` loop is run for a given number of rounds. Once the number is at least
a rank that every round lowers, the loop ends because its test fails.
-/

namespace JamVM

variable {State : Type u}

def whileLoop (test : State → Bool) (body : State → State) : Nat → State → State
  | 0, state => state
  | fuel + 1, state => if test state then whileLoop test body fuel (body state) else state

variable {test : State → Bool} {state : State} {body : State → Option State}

theorem whileLoop_invariant {body : State → State} (holds : State → Prop)
    (preserved : ∀ state, holds state → test state = true → holds (body state))
    (fuel : Nat) (initially : holds state) :
    holds (whileLoop test body fuel state) := by
  induction fuel generalizing state with
  | zero => exact initially
  | succ fuel ih =>
    rw [whileLoop]
    split
    · exact ih (preserved state initially (by assumption))
    · exact initially

theorem whileLoop_exit (test : State → Bool) (body : State → State)
    (holds : State → Prop) (rank : State → Nat)
    (preserved : ∀ state, holds state → test state = true → holds (body state))
    (descends : ∀ state, holds state → test state = true → rank (body state) < rank state)
    (fuel : Nat) (state : State) (initially : holds state) (enough : rank state ≤ fuel) :
    test (whileLoop test body fuel state) = false := by
  induction fuel generalizing state with
  | zero =>
    rw [whileLoop]
    by_contra continues
    have lower := descends state initially (by simpa using continues)
    omega
  | succ fuel ih =>
    rw [whileLoop]
    split
    · rename_i continues
      have lower := descends state initially continues
      exact ih _ (preserved state initially continues) (by omega)
    · simpa using ‹¬ test state = true›

theorem whileLoop_along {Item : Type v} (test : State → Bool) (body : State → State)
    (holds : List Item → List Item → State → Prop)
    (continues : ∀ pre item rest state, holds pre (item :: rest) state →
      test state = true ∧ holds (pre ++ [item]) rest (body state))
    (stops : ∀ pre state, holds pre [] state → test state = false)
    (pre items : List Item) (fuel : Nat) (enough : items.length ≤ fuel) (state : State)
    (initially : holds pre items state) :
    holds (pre ++ items) [] (whileLoop test body fuel state) := by
  induction items generalizing pre fuel state with
  | nil =>
    rw [List.append_nil]
    cases fuel with
    | zero => exact initially
    | succ =>
      rw [whileLoop, if_neg (by simp [stops pre state initially])]
      exact initially
  | cons item rest ih =>
    obtain ⟨isTrue, next⟩ := continues pre item rest state initially
    cases fuel with
    | zero => simp at enough
    | succ fuel =>
      rw [whileLoop, if_pos isTrue, List.append_cons]
      exact ih _ fuel (by simpa using enough) (body state) next

def whileSome (test : State → Bool) (body : State → Option State) : Nat → State → Option State
  | 0, state => if test state then none else some state
  | fuel + 1, state =>
    if test state then (body state).bind (whileSome test body fuel) else some state

attribute [local simp] whileSome

theorem whileSome_succ (fuel : Nat) (ends : whileSome test body fuel state = some final) :
    whileSome test body (fuel + 1) state = some final := by
  induction fuel generalizing state with
  | zero =>
    cases continues : test state with
    | true => simp [continues] at ends
    | false => simpa [continues] using ends
  | succ fuel ih =>
    cases continues : test state with
    | false => simpa [continues] using ends
    | true =>
      rw [whileSome, if_pos continues] at ends ⊢
      obtain ⟨next, ran, rest⟩ := Option.bind_eq_some_iff.mp ends
      rw [ran]
      exact ih rest

theorem whileSome_mono (enough : fuel ≤ more) (ends : whileSome test body fuel state = some final) :
    whileSome test body more state = some final := by
  induction enough with
  | refl => exact ends
  | step _ ih => exact whileSome_succ _ ih

theorem whileSome_of_whileLoop {body : State → State} (holds : State → Prop)
    (succeeds : ∀ state, holds state → attempt state = some (body state))
    (preserved : ∀ state, holds state → test state = true → holds (body state))
    (enough : fuel ≤ more) (initially : holds state)
    (ended : test (whileLoop test body fuel state) = false) :
    whileSome test attempt more state = some (whileLoop test body fuel state) := by
  refine whileSome_mono enough ?_
  induction fuel generalizing state with
  | zero =>
    rw [whileLoop] at ended ⊢
    simp [ended]
  | succ fuel ih =>
    rw [whileLoop] at ended ⊢
    rw [whileSome]
    split
    · rename_i continues
      rw [if_pos continues] at ended
      rw [succeeds state initially]
      exact ih (by omega) (preserved state initially continues) ended
    · rfl

/-- A body that does not fail while the invariant holds, and that goes down in a
well-founded order, brings the loop to its end. -/
theorem whileSome_total {Rank : Type v} {below : Rank → Rank → Prop}
    (wellFounded : WellFounded below) (holds : State → Prop) (rank : State → Rank)
    (progress : ∀ state, holds state → test state = true →
      ∃ next, body state = some next ∧ holds next ∧ below (rank next) (rank state))
    (initially : holds state) :
    ∃ fuel final, whileSome test body fuel state = some final ∧ holds final ∧
      test final = false := by
  generalize isRank : rank state = value
  induction value using wellFounded.induction generalizing state with
  | h value ih =>
    cases continues : test state with
    | false => exact ⟨0, state, by simp [continues], initially, continues⟩
    | true =>
      obtain ⟨next, ran, kept, lower⟩ := progress state initially continues
      obtain ⟨fuel, final, ends, res⟩ := ih (rank next) (isRank ▸ lower) kept rfl
      exact ⟨fuel + 1, final, by simp [continues, ran, ends], res⟩

def whileLog (test : State → Bool) (body : State → Option State) (fuel : Nat) (state : State)
    (log : List State) : Option (State × List State) :=
  whileSome (fun pair => test pair.1)
    (fun pair => (body pair.1).map fun next => (next, pair.1 :: pair.2)) fuel (state, log)

theorem whileLog_total {Rank : Type v} {below : Rank → Rank → Prop}
    (wellFounded : WellFounded below) (holds : State → List State → Prop) (rank : State → Rank)
    (progress : ∀ state log, holds state log → test state = true →
      ∃ next, body state = some next ∧ holds next (state :: log) ∧ below (rank next) (rank state))
    (initially : holds state []) :
    ∃ fuel final log, whileLog test body fuel state [] = some (final, log) ∧ holds final log ∧
      test final = false := by
  obtain ⟨fuel, ⟨final, log⟩, res⟩ :=
    @whileSome_total _ (fun pair => test pair.1) (state, [])
      (fun pair => (body pair.1).map fun next => (next, pair.1 :: pair.2)) _ _ wellFounded
      (fun pair => holds pair.1 pair.2) (fun pair => rank pair.1)
      (fun pair kept continues => by
        obtain ⟨next, ran, kept, lower⟩ := progress pair.1 pair.2 kept continues
        exact ⟨(next, pair.1 :: pair.2), by rw [ran, Option.map_some], kept, lower⟩)
      initially
  exact ⟨fuel, final, log, res⟩

theorem whileSome_of_whileLog (ends : whileLog test body fuel state log = some (final, logged)) :
    whileSome test body fuel state = some final := by
  induction fuel generalizing state log with
  | zero => cases continues : test state <;> simp_all [whileLog]
  | succ fuel ih =>
    cases continues : test state with
    | false => simp_all [whileLog]
    | true =>
      rw [whileLog, whileSome, if_pos continues] at ends
      rw [whileSome, if_pos continues]
      obtain ⟨pair, ran, rest⟩ := Option.bind_eq_some_iff.mp ends
      obtain ⟨next, isNext, rfl⟩ := Option.map_eq_some_iff.mp ran
      rw [show body state = some next from isNext]
      exact ih rest

end JamVM
