import Mathlib.Data.List.Cycle

/-! # Circular doubly linked lists

Nodes carry nullable forward and backward links. A ring represents the list
of its nodes starting from a head pointer; nodes outside the ring have null
links, so membership can be read off a node's own links.
-/

namespace JamVM

open List hiding head next prev tail

attribute [local simp] Function.update_apply

@[ext]
structure Links (Node : Type u) where
  next : Node → Option Node
  prev : Node → Option Node

namespace Links

variable {Node : Type u} [DecidableEq Node]

section
variable (links : Links Node)

def setNext (node : Node) (target : Option Node) : Links Node :=
  { links with next := Function.update links.next node target }

def setPrev (node : Node) (target : Option Node) : Links Node :=
  { links with prev := Function.update links.prev node target }

def storeNext (pointer target : Option Node) : Links Node :=
  match pointer with
  | none => links
  | some node => links.setNext node target

def storePrev (pointer target : Option Node) : Links Node :=
  match pointer with
  | none => links
  | some node => links.setPrev node target

def insertLast (head node : Node) : Links Node :=
  let links := links.setNext node (some head)
  let links := links.setPrev node (links.prev head)
  let links := links.setPrev head (some node)
  links.storeNext (links.prev node) (some node)

def unlink (node : Node) : Links Node :=
  let links := links.storeNext (links.prev node) (links.next node)
  let links := links.storePrev (links.next node) (links.prev node)
  (links.setNext node none).setPrev node none

def Adjacent (first second : Node) : Prop :=
  links.next first = some second ∧ links.prev second = some first

end

omit [DecidableEq Node] in
/-- Consecutive nodes of a path stay adjacent if the forward link of its last
and the backward link of its first node are the only ones that change. -/
theorem isChain_of_agree {links changed : Links Node} {path : List Node}
    (nodup : path.Nodup) (chain : List.IsChain links.Adjacent path)
    (isHead : path.head? = some head) (isLast : path.getLast? = some tail)
    (next : ∀ node ∈ path, node ≠ tail → changed.next node = links.next node)
    (prev : ∀ node ∈ path, node ≠ head → changed.prev node = links.prev node) :
    List.IsChain changed.Adjacent path := by
  rw [isChain_iff_forall_rel_of_append_cons_cons] at chain ⊢
  intro first second pre post split
  have adjacent := chain split
  subst split
  have apart := nodup_append.mp nodup
  constructor
  · rw [next first (by simp) ?_]
    · exact adjacent.1
    · rintro rfl
      have mem : first ∈ second :: post :=
        mem_of_getLast? (by simpa [getLast?_append, getLast?_cons] using isLast)
      exact (nodup_cons.mp apart.2.1).1 mem
  · rw [prev second (by simp) ?_]
    · exact adjacent.2
    · rintro rfl
      cases pre with
      | nil =>
        obtain rfl : first = second := by simpa using isHead
        simp at apart
      | cons other =>
        obtain rfl : other = second := by simpa using isHead
        exact apart.2.2 other (by simp) other (by simp) rfl

end Links

attribute [local simp] Links.setNext Links.setPrev Links.storeNext Links.storePrev Links.Adjacent

structure Ring {Node : Type u} (links : Links Node) (nodes : List Node) : Prop where
  nodup : nodes.Nodup
  chain : Cycle.Chain links.Adjacent (nodes : Cycle Node)
  outside : ∀ node, node ∉ nodes → links.next node = none ∧ links.prev node = none

namespace Ring

variable {Node : Type u} {links : Links Node} {nodes : List Node}

theorem empty : Ring (⟨fun _ => none, fun _ => none⟩ : Links Node) [] where
  nodup := .nil
  chain := .nil _
  outside _ _ := ⟨rfl, rfl⟩

theorem rotate (ring : Ring links (first ++ second)) : Ring links (second ++ first) where
  nodup := (perm_append_comm.nodup_iff).mp ring.nodup
  chain := by
    have same : ((first ++ second : List Node) : Cycle Node) = (second ++ first : List Node) :=
      Cycle.coe_eq_coe.mpr isRotated_append
    exact same ▸ ring.chain
  outside node notMember := ring.outside node (by simpa [or_comm] using notMember)

variable {node : Node} {rest : List Node}

theorem chain_cons (ring : Ring links (node :: rest)) :
    List.IsChain links.Adjacent (node :: (rest ++ [node])) :=
  (Cycle.chain_coe_cons ..).mp ring.chain

theorem next_head (ring : Ring links (node :: rest)) :
    links.next node = some ((rest ++ [node]).head (by simp)) := by
  cases rest with
  | nil | cons => exact (isChain_cons_cons.mp ring.chain_cons).1.1

theorem prev_head (ring : Ring links (node :: rest)) :
    links.prev node = (node :: rest).getLast? := by
  have last := ring.chain_cons
  rw [getLast?_eq_some_getLast (cons_ne_nil node rest)]
  rw [← cons_append] at last
  exact (last.rel_getLast_head_of_append (by simp) (by simp)).2

theorem mem_iff_next (ring : Ring links nodes) (node : Node) :
    node ∈ nodes ↔ links.next node ≠ none := by
  constructor
  · intro mem
    obtain ⟨first, second, rfl⟩ := append_of_mem mem
    rw [ring.rotate.next_head]
    simp
  · intro linked
    by_contra notMember
    exact linked (ring.outside node notMember).1

section
variable [DecidableEq Node]

theorem singleton (ring : Ring links []) (node : Node) :
    Ring ((links.setPrev node (some node)).insertLast node node) [node] := by
  have next (other : Node) : ((links.setPrev node (some node)).insertLast node node).next other =
      if other = node then some node else links.next other := by
    by_cases same : other = node <;>
      simp [Links.insertLast, same]
  have prev (other : Node) : ((links.setPrev node (some node)).insertLast node node).prev other =
      if other = node then some node else links.prev other := by
    by_cases same : other = node <;>
      simp [Links.insertLast, same]
  refine ⟨nodup_singleton node, ?_, ?_⟩
  · simp [-Links.setPrev, next, prev]
  · intro other notMember
    have ne : other ≠ node := by simpa using notMember
    rw [next, prev, if_neg ne, if_neg ne]
    exact ring.outside other not_mem_nil

variable {node : Node}

theorem insertLast (ring : Ring links (head :: rest)) (fresh : node ∉ head :: rest) :
    Ring (links.insertLast head node) (head :: rest ++ [node]) := by
  have last := ring.prev_head
  obtain ⟨tail, isLast⟩ := Option.isSome_iff_exists.mp (getLast?_isSome.mpr (cons_ne_nil head rest))
  have lastMember := mem_of_getLast? isLast
  rw [isLast] at last
  have headFresh : head ≠ node := fun same => fresh (by simp [same])
  have tailFresh : tail ≠ node := fun same => fresh (same ▸ lastMember)
  have next (other : Node) : (links.insertLast head node).next other =
      if other = tail then some node else if other = node then some head
        else links.next other := by
    simp [Links.insertLast, last, headFresh.symm]
  have prev (other : Node) : (links.insertLast head node).prev other =
      if other = head then some node else if other = node then some tail
        else links.prev other := by
    simp [Links.insertLast, last, headFresh.symm]
  refine ⟨?_, ?_, ?_⟩
  · exact (perm_append_comm.nodup_iff).mp (nodup_cons.mpr ⟨fresh, ring.nodup⟩)
  · have path := ring.chain_cons
    have agree : List.IsChain (links.insertLast head node).Adjacent (head :: rest) := by
      refine Links.isChain_of_agree ring.nodup path.left_of_append rfl isLast ?_ ?_
      · intro other mem notTail
        rw [next, if_neg notTail, if_neg (ne_of_mem_of_not_mem mem fresh)]
      · intro other mem notHead
        rw [prev, if_neg notHead, if_neg (ne_of_mem_of_not_mem mem fresh)]
    rw [cons_append, Cycle.chain_coe_cons, append_assoc, ← cons_append]
    refine agree.append ?_ ?_
    · simp [next, prev, tailFresh.symm]
    · simp [isLast, next, prev, headFresh.symm]
  · intro other notMember
    simp only [mem_append, mem_singleton, not_or] at notMember
    have notTail : other ≠ tail := (ne_of_mem_of_not_mem lastMember notMember.1).symm
    have notHead : other ≠ head := fun same => notMember.1 (by simp [same])
    rw [next, prev, if_neg notTail, if_neg notMember.2, if_neg notHead, if_neg notMember.2]
    exact ring.outside other notMember.1

theorem unlink_head (ring : Ring links (node :: rest)) : Ring (links.unlink node) rest := by
  have first := ring.next_head
  have last := ring.prev_head
  obtain ⟨fresh, nodup⟩ := nodup_cons.mp ring.nodup
  cases rest with
  | nil =>
    refine ⟨.nil, .nil _, fun other _ => ?_⟩
    have unlinked : other ≠ node → links.next other = none ∧ links.prev other = none :=
      fun ne => ring.outside other (by simpa using ne)
    by_cases same : other = node
    · simp [Links.unlink, same]
    · simp_all [Links.unlink]
  | cons head rest =>
    obtain ⟨tail, isLast⟩ := Option.isSome_iff_exists.mp (getLast?_isSome.mpr
      (cons_ne_nil head rest))
    have lastMember := mem_of_getLast? isLast
    rw [getLast?_cons_cons, isLast] at last
    have headFresh : head ≠ node := fun same => fresh (by simp [same])
    have tailFresh : tail ≠ node := fun same => fresh (same ▸ lastMember)
    have next (other : Node) : (links.unlink node).next other =
        if other = node then none else if other = tail then some head
          else links.next other := by
      simp [Links.unlink, first, last, tailFresh.symm]
    have prev (other : Node) : (links.unlink node).prev other =
        if other = node then none else if other = head then some tail
          else links.prev other := by
      simp [Links.unlink, first, last, tailFresh.symm]
    refine ⟨nodup, ?_, ?_⟩
    · have path := ring.chain_cons.tail
      have agree : List.IsChain (links.unlink node).Adjacent (head :: rest) := by
        refine Links.isChain_of_agree nodup path.left_of_append rfl isLast ?_ ?_
        · intro other mem notTail
          rw [next, if_neg (ne_of_mem_of_not_mem mem fresh), if_neg notTail]
        · intro other mem notHead
          rw [prev, if_neg (ne_of_mem_of_not_mem mem fresh), if_neg notHead]
      rw [Cycle.chain_coe_cons, ← cons_append]
      refine agree.append (.singleton _) ?_
      simp [isLast, next, prev, headFresh, tailFresh]
    · intro other notMember
      by_cases same : other = node
      · rw [next, prev, if_pos same, if_pos same]
        exact ⟨rfl, rfl⟩
      · have notTail : other ≠ tail := (ne_of_mem_of_not_mem lastMember notMember).symm
        have notHead : other ≠ head := fun same => notMember (by simp [same])
        rw [next, prev, if_neg same, if_neg notTail, if_neg same, if_neg notHead]
        exact ring.outside other (not_mem_cons_of_ne_of_not_mem same notMember)

theorem unlink (ring : Ring links nodes) (mem : node ∈ nodes) :
    Ring (links.unlink node) (nodes.erase node) := by
  obtain ⟨first, second, rfl⟩ := append_of_mem mem
  have fresh : node ∉ first := by
    intro earlier
    exact (nodup_append.mp ring.nodup).2.2 node earlier node (by simp) rfl
  rw [erase_append_right _ fresh, erase_cons_head]
  exact (ring.rotate.unlink_head).rotate

end

end Ring

end JamVM
