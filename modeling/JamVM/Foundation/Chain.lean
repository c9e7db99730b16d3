import Mathlib.Data.List.Nodup

/-! # Linked lists in a memory of words

A link to a node is a word `encode node`; the word at `field node` is the link to
the next node. Starting from a word, the nodes are followed up to a last word.
-/

namespace JamVM

def Chain (encode field memory : Nat → Nat) : Nat → List Nat → Nat → Prop
  | word, [], last => word = last
  | word, node :: rest, last =>
    word = encode node ∧ Chain encode field memory (memory (field node)) rest last

namespace Chain

variable {encode field memory : Nat → Nat}

variable {word last : Nat} {nodes : List Nat}

theorem congr (chain : Chain encode field memory word nodes last)
    (same : ∀ node ∈ nodes, changed (field node) = memory (field node)) :
    Chain encode field changed word nodes last := by
  induction nodes generalizing word with
  | nil => exact chain
  | cons node rest ih =>
    refine ⟨chain.1, ?_⟩
    rw [same node (by simp)]
    exact ih chain.2 fun other mem => same other (by simp [mem])

theorem update_of_not_mem (chain : Chain encode field memory word nodes last) (value : Nat)
    (outside : ∀ node ∈ nodes, field node ≠ address) :
    Chain encode field (Function.update memory address value) word nodes last :=
  chain.congr fun node mem => Function.update_of_ne (outside node mem) value memory

theorem append (first : Chain encode field memory word left middle)
    (second : Chain encode field memory middle right last) :
    Chain encode field memory word (left ++ right) last := by
  induction left generalizing word with
  | nil => exact first ▸ second
  | cons node rest ih => exact ⟨first.1, ih first.2⟩

theorem split (chain : Chain encode field memory word (left ++ right) last) :
    ∃ middle, Chain encode field memory word left middle ∧
      Chain encode field memory middle right last := by
  induction left generalizing word with
  | nil => exact ⟨word, rfl, chain⟩
  | cons node rest ih =>
    obtain ⟨middle, first, second⟩ := ih chain.2
    exact ⟨middle, ⟨chain.1, first⟩, second⟩

theorem last_link (chain : Chain encode field memory word nodes last) : (match nodes.getLast? with
      | none => word
      | some node => memory (field node)) = last := by
  induction nodes generalizing word with
  | nil => exact chain
  | cons node rest ih =>
    cases rest with
    | nil => exact chain.2
    | cons =>
      rw [List.getLast?_cons_cons]
      exact ih chain.2

end Chain

end JamVM
