import Mathlib.Data.Set.Insert
import JamVM.Foundation.Chain
import JamVM.Foundation.Loop

/-! # Pointer threading

A reference is threaded by exchanging it with the header of its object: the slot
takes the word of the header, and the header takes a link to the slot. The slots
that refer to one object become a chain that starts at its header and ends with
the original header word. Unthreading follows the chain, writes the object's new
address into every slot and restores the header.
-/

namespace JamVM.Threading

open Set List Function

def link (slot : Nat) : Nat := slot ||| 2

def isLink (word : Nat) : Bool := word % 4 == 2

def linkedSlot (word : Nat) : Nat := word - word % 4

def thread (memory : Nat → Nat) (slot header : Nat) : Nat → Nat :=
  update (update memory slot (memory header)) header (link slot)

def unthreadSlot (address : Nat) (state : (Nat → Nat) × Nat) : (Nat → Nat) × Nat :=
  (update state.1 (linkedSlot state.2) address, state.1 (linkedSlot state.2))

def unthread (fuel : Nat) (memory : Nat → Nat) (header address : Nat) : Nat → Nat :=
  let state := whileLoop (fun state => isLink state.2) (unthreadSlot address) fuel
    (memory, memory header)
  update state.1 header state.2

def threadAll (headerOf : Nat → Nat) (memory : Nat → Nat) (slots : List Nat) : Nat → Nat :=
  slots.foldl (fun memory slot =>
    if memory slot = 0 then memory else thread memory slot (headerOf (memory slot))) memory

/-! ## Links -/

variable {slot last : Nat} {memory : Nat → Nat} {slots : List Nat}

theorem link_eq (aligned : slot % 4 = 0) : link slot = slot + 2 := by
  have split : slot = 2 ^ 2 * (slot / 4) := by omega
  rw [link, split]
  exact (Nat.two_pow_add_eq_or_of_lt (by decide) _).symm

theorem isLink_link (aligned : slot % 4 = 0) : isLink (link slot) = true := by
  rw [link_eq aligned, isLink, beq_iff_eq]
  omega

theorem linkedSlot_link (aligned : slot % 4 = 0) : linkedSlot (link slot) = slot := by
  rw [link_eq aligned, linkedSlot]
  omega

/-! ## Following a chain -/

abbrev ThreadChain (memory : Nat → Nat) := Chain link id memory

theorem thread_chain (chain : ThreadChain memory (memory header) slots last)
    (apart : slot ≠ header) (fresh : slot ∉ slots) (outside : header ∉ slots) :
    ThreadChain (thread memory slot header) (thread memory slot header header)
      (slot :: slots) last := by
  refine ⟨update_self .., ?_⟩
  have taken : thread memory slot header (id slot) = memory header := by
    rw [thread, id, update_of_ne apart, update_self]
  rw [taken]
  apply chain.congr
  intro other mem
  rw [thread, id, update_of_ne (ne_of_mem_of_not_mem mem outside),
    update_of_ne (ne_of_mem_of_not_mem mem fresh)]

theorem unthread_loop (chain : ThreadChain memory word slots last) (nodup : slots.Nodup)
    (aligned : ∀ slot ∈ slots, slot % 4 = 0) (plain : isLink last = false)
    (enough : slots.length ≤ fuel) :
    whileLoop (fun state => isLink state.2) (unthreadSlot address) fuel (memory, word) =
      (fun cell => if cell ∈ slots then address else memory cell, last) := by
  induction slots generalizing memory word fuel with
  | nil =>
    have done : word = last := chain
    cases fuel with
    | zero => simp [whileLoop, done]
    | succ => simp [whileLoop, done, plain]
  | cons slot rest ih =>
    obtain ⟨isHead, tail⟩ := chain
    obtain ⟨fresh, restNodup⟩ := nodup_cons.mp nodup
    have slotAligned := aligned slot (by simp)
    cases fuel with
    | zero => simp at enough
    | succ =>
      have next : ThreadChain (update memory slot address) (memory slot) rest last :=
        tail.update_of_not_mem address fun other mem => ne_of_mem_of_not_mem mem fresh
      rw [whileLoop, isHead, if_pos (isLink_link slotAligned), unthreadSlot,
        linkedSlot_link slotAligned,
        ih next restNodup (fun other mem => aligned other (by simp [mem])) (by simpa using enough)]
      refine Prod.ext (funext fun cell => ?_) rfl
      by_cases isSlot : cell = slot
      · simp [isSlot]
      · simp [isSlot]

theorem unthread_eq
    (address : Nat) (chain : ThreadChain memory (memory header) slots last) (nodup : slots.Nodup)
    (aligned : ∀ slot ∈ slots, slot % 4 = 0) (plain : isLink last = false)
    (enough : slots.length ≤ fuel) :
    unthread fuel memory header address =
      update (fun cell => if cell ∈ slots then address else memory cell) header last := by
  rw [unthread, unthread_loop chain nodup aligned plain enough]

/-! ## Partly threaded memories -/

/-- In the words of `domain`, `memory` is `origin` except that the slots in
`pending header` are threaded onto their header and the words in `settled` have
their final value. The final value of a pending slot is what unthreading its
header will write. -/
structure Threaded (origin final place : Nat → Nat) (headers domain : Set Nat)
    (pending : Nat → List Nat) (settled : Set Nat) (memory : Nat → Nat) : Prop where
  chain : ∀ header ∈ headers, ThreadChain memory (memory header) (pending header) (origin header)
  plain : ∀ header ∈ headers, isLink (origin header) = false
  placed : ∀ header ∈ headers, ∀ slot ∈ pending header, final slot = place header
  aligned : ∀ header ∈ headers, ∀ slot ∈ pending header, slot % 4 = 0
  nodup : ∀ header ∈ headers, (pending header).Nodup
  apart : ∀ header ∈ headers, ∀ other ∈ headers, ∀ slot ∈ pending header,
    slot ∈ pending other → header = other
  inside : ∀ header ∈ headers, header ∈ domain ∧ ∀ slot ∈ pending header, slot ∈ domain
  pending_open : ∀ header ∈ headers, ∀ slot ∈ pending header, slot ∉ headers ∧ slot ∉ settled
  settled_open : ∀ slot ∈ settled, slot ∉ headers
  value : ∀ slot ∈ settled, slot ∈ domain → memory slot = final slot
  untouched : ∀ cell ∈ domain, cell ∉ headers → cell ∉ settled →
    (∀ header ∈ headers, cell ∉ pending header) → memory cell = origin cell

structure Fresh (headers : Set Nat) (pending : Nat → List Nat) (settled : Set Nat)
    (cell : Nat) : Prop where
  not_header : cell ∉ headers
  not_settled : cell ∉ settled
  not_pending : ∀ header ∈ headers, cell ∉ pending header

theorem mem_push {pending : Nat → List Nat} : cell ∈ update pending header
      (slot :: pending header) other ↔ cell ∈ pending other ∨ cell = slot ∧ header = other := by
  by_cases same : other = header
  · subst same
    simp [or_comm]
  · simp [update_of_ne same, Ne.symm same]

namespace Threaded

variable {origin final place memory : Nat → Nat} {headers domain settled : Set Nat}
  {pending : Nat → List Nat}

theorem start (plain : ∀ header ∈ headers, isLink (origin header) = false)
    (inside : headers ⊆ domain) :
    Threaded origin final place headers domain (fun _ => []) ∅ origin where
  chain _ _ := rfl
  plain := plain
  placed _ _ _ mem := absurd mem (not_mem_nil)
  aligned _ _ _ mem := absurd mem (not_mem_nil)
  nodup _ _ := nodup_nil
  apart _ _ _ _ _ mem := absurd mem (not_mem_nil)
  inside _ isHeader := ⟨inside isHeader, fun _ mem => absurd mem (not_mem_nil)⟩
  pending_open _ _ _ mem := absurd mem (not_mem_nil)
  settled_open _ mem := absurd mem (notMem_empty _)
  value _ mem := absurd mem (notMem_empty _)
  untouched _ _ _ _ _ := rfl

variable {header : Nat}

section
variable (threaded : Threaded origin final place headers domain pending settled memory)
include threaded

theorem at_fresh (fresh : Fresh headers pending settled cell) (inside : cell ∈ domain) :
    memory cell = origin cell :=
  threaded.untouched cell inside fresh.not_header fresh.not_settled fresh.not_pending

theorem thread (isHeader : header ∈ headers)
    (fresh : Fresh headers pending settled slot) (inside : slot ∈ domain)
    (aligned : slot % 4 = 0) (placed : final slot = place header) :
    Threaded origin final place headers domain
      (update pending header (slot :: pending header)) settled
      (thread memory slot header) := by
  have slotApart : ∀ other ∈ headers, slot ≠ other := fun other isOther same =>
    fresh.not_header (same ▸ isOther)
  have pendingApart : ∀ other ∈ headers, ∀ cell ∈ pending other, cell ≠ header ∧ cell ≠ slot :=
    fun other isOther cell mem =>
      ⟨fun same => (threaded.pending_open other isOther cell mem).1 (same ▸ isHeader),
        fun same => fresh.not_pending other isOther (same ▸ mem)⟩
  have elsewhere : ∀ cell, cell ≠ slot → cell ≠ header →
      Threading.thread memory slot header cell = memory cell := by
    intro cell notSlot notHeader
    rw [Threading.thread, update_of_ne notHeader, update_of_ne notSlot]
  refine
    { plain := threaded.plain
      settled_open := threaded.settled_open
      chain := ?_, placed := ?_, aligned := ?_, nodup := ?_, apart := ?_, inside := ?_
      pending_open := ?_, value := ?_, untouched := ?_ }
  · intro other isOther
    obtain rfl | same := eq_or_ne other header
    · rw [update_self]
      exact thread_chain (threaded.chain other isOther) (slotApart other isOther)
        (fresh.not_pending other isOther)
        (fun mem => (threaded.pending_open other isOther other mem).1 isOther)
    · rw [update_of_ne same, elsewhere other (slotApart other isOther).symm same]
      apply (threaded.chain other isOther).congr
      intro cell mem
      exact elsewhere cell (pendingApart other isOther cell mem).2
        (pendingApart other isOther cell mem).1
  · intro other isOther cell mem
    rcases mem_push.mp mem with old | ⟨rfl, rfl⟩
    · exact threaded.placed other isOther cell old
    · exact placed
  · intro other isOther cell mem
    rcases mem_push.mp mem with old | ⟨rfl, rfl⟩
    · exact threaded.aligned other isOther cell old
    · exact aligned
  · intro other isOther
    obtain rfl | same := eq_or_ne other header
    · rw [update_self]
      exact nodup_cons.mpr ⟨fresh.not_pending other isOther, threaded.nodup other isOther⟩
    · rw [update_of_ne same]
      exact threaded.nodup other isOther
  · intro left isLeft right isRight cell inLeft inRight
    rcases mem_push.mp inLeft with oldLeft | ⟨rfl, rfl⟩
    · rcases mem_push.mp inRight with oldRight | ⟨rfl, rfl⟩
      · exact threaded.apart left isLeft right isRight cell oldLeft oldRight
      · exact absurd oldLeft (fresh.not_pending left isLeft)
    · rcases mem_push.mp inRight with oldRight | ⟨-, rfl⟩
      · exact absurd oldRight (fresh.not_pending right isRight)
      · rfl
  · intro other isOther
    refine ⟨(threaded.inside other isOther).1, fun cell mem => ?_⟩
    rcases mem_push.mp mem with old | ⟨rfl, rfl⟩
    · exact (threaded.inside other isOther).2 cell old
    · exact inside
  · intro other isOther cell mem
    rcases mem_push.mp mem with old | ⟨rfl, rfl⟩
    · exact threaded.pending_open other isOther cell old
    · exact ⟨fresh.not_header, fresh.not_settled⟩
  · intro cell isSettled isInside
    rw [elsewhere cell (fun same => fresh.not_settled (same ▸ isSettled))
      (fun same => threaded.settled_open cell isSettled (same ▸ isHeader))]
    exact threaded.value cell isSettled isInside
  · intro cell isInside notHeader notSettled notPending
    have notSlot : cell ≠ slot := fun same =>
      notPending header isHeader (mem_push.mpr (.inr ⟨same, rfl⟩))
    rw [elsewhere cell notSlot (fun same => notHeader (same ▸ isHeader))]
    apply threaded.untouched cell isInside notHeader notSettled
    intro other isOther mem
    exact notPending other isOther (mem_push.mpr (.inl mem))

theorem settle (fresh : Fresh headers pending settled slot) :
    Threaded origin final place headers domain pending (insert slot settled)
      (update memory slot (final slot)) where
  chain header isHeader := by
    rw [update_of_ne (ne_of_mem_of_not_mem isHeader fresh.not_header)]
    exact (threaded.chain header isHeader).update_of_not_mem _ fun cell mem =>
      ne_of_mem_of_not_mem mem (fresh.not_pending header isHeader)
  __ := threaded
  pending_open header isHeader cell mem := by
    obtain ⟨notHeader, notSettled⟩ := threaded.pending_open header isHeader cell mem
    refine ⟨notHeader, fun inserted => ?_⟩
    rcases mem_insert_iff.mp inserted with same | isSettled
    · exact fresh.not_pending header isHeader (same ▸ mem)
    · exact notSettled isSettled
  settled_open cell inserted := by
    rcases mem_insert_iff.mp inserted with same | isSettled
    · exact same ▸ fresh.not_header
    · exact threaded.settled_open cell isSettled
  value cell inserted isInside := by
    by_cases same : cell = slot
    · rw [same, update_self]
    · rw [update_of_ne same]
      exact threaded.value cell (mem_of_mem_insert_of_ne inserted same) isInside
  untouched cell isInside notHeader notInserted notPending := by
    have notSlot : cell ≠ slot := fun same => notInserted (same ▸ mem_insert slot settled)
    rw [update_of_ne notSlot]
    exact threaded.untouched cell isInside notHeader
      (fun isSettled => notInserted (mem_insert_of_mem slot isSettled)) notPending

theorem unthread (isHeader : header ∈ headers) (enough : (pending header).length ≤ fuel) :
    Threaded origin final place headers domain (update pending header [])
      (settled ∪ {slot | slot ∈ pending header})
      (unthread fuel memory header (place header)) := by
  have res := unthread_eq (place header) (threaded.chain header isHeader)
    (threaded.nodup header isHeader) (threaded.aligned header isHeader)
    (threaded.plain header isHeader) enough
  have atHeader : Threading.unthread fuel memory header (place header) header =
      origin header := by
    rw [res, update_self]
  have atSlot : ∀ cell ∈ pending header,
      Threading.unthread fuel memory header (place header) cell = place header := by
    intro cell mem
    have notHeader : cell ≠ header := fun same =>
      (threaded.pending_open header isHeader cell mem).1 (same ▸ isHeader)
    rw [res, update_of_ne notHeader, if_pos mem]
  have elsewhere : ∀ cell ∉ pending header, cell ≠ header →
      Threading.unthread fuel memory header (place header) cell = memory cell := by
    intro cell notPending notHeader
    rw [res, update_of_ne notHeader, if_neg notPending]
  have members : ∀ other cell, cell ∈ update pending header [] other →
      other ≠ header ∧ cell ∈ pending other := by
    intro other cell mem
    by_cases same : other = header
    · simp [same] at mem
    · exact ⟨same, by rwa [update_of_ne same] at mem⟩
  refine
    { plain := threaded.plain
      chain := ?_, placed := ?_, aligned := ?_, nodup := ?_, apart := ?_, inside := ?_
      pending_open := ?_, settled_open := ?_, value := ?_, untouched := ?_ }
  · intro other isOther
    obtain rfl | same := eq_or_ne other header
    · rw [update_self]
      exact atHeader
    · have notPending : other ∉ pending header := fun mem =>
        (threaded.pending_open header isHeader other mem).1 isOther
      rw [update_of_ne same, elsewhere other notPending same]
      apply (threaded.chain other isOther).congr
      intro cell mem
      exact elsewhere cell
        (fun inHeader => same (threaded.apart other isOther header isHeader cell mem inHeader))
        (fun isSame => (threaded.pending_open other isOther cell mem).1 (isSame ▸ isHeader))
  · intro other isOther cell mem
    exact threaded.placed other isOther cell (members other cell mem).2
  · intro other isOther cell mem
    exact threaded.aligned other isOther cell (members other cell mem).2
  · intro other isOther
    by_cases same : other = header
    · simp [same]
    · rw [update_of_ne same]
      exact threaded.nodup other isOther
  · intro left isLeft right isRight cell inLeft inRight
    exact threaded.apart left isLeft right isRight cell (members left cell inLeft).2
      (members right cell inRight).2
  · intro other isOther
    exact ⟨(threaded.inside other isOther).1, fun cell mem =>
      (threaded.inside other isOther).2 cell (members other cell mem).2⟩
  · intro other isOther cell mem
    obtain ⟨ne, old⟩ := members other cell mem
    obtain ⟨notHeader, notSettled⟩ := threaded.pending_open other isOther cell old
    refine ⟨notHeader, fun either => either.elim notSettled fun inHeader => ?_⟩
    exact ne (threaded.apart other isOther header isHeader cell old inHeader)
  · intro cell either
    rcases either with isSettled | mem
    · exact threaded.settled_open cell isSettled
    · exact (threaded.pending_open header isHeader cell mem).1
  · intro cell either isInside
    by_cases mem : cell ∈ pending header
    · rw [atSlot cell mem, threaded.placed header isHeader cell mem]
    · have isSettled : cell ∈ settled := either.resolve_right mem
      rw [elsewhere cell mem fun same => threaded.settled_open cell isSettled (same ▸ isHeader)]
      exact threaded.value cell isSettled isInside
  · intro cell isInside notHeader notEither notPending
    have notMember : cell ∉ pending header := fun mem => notEither (.inr mem)
    rw [elsewhere cell notMember fun same => notHeader (same ▸ isHeader)]
    apply threaded.untouched cell isInside notHeader fun isSettled => notEither (.inl isSettled)
    intro other isOther mem
    by_cases same : other = header
    · exact notMember (same ▸ mem)
    · exact notPending other isOther (by rwa [update_of_ne same])

theorem unthread_outside (isHeader : header ∈ headers)
    (enough : (pending header).length ≤ fuel) (outside : cell ∉ domain) :
    Threading.unthread fuel memory header address cell = memory cell := by
  obtain ⟨headerInside, slotsInside⟩ := threaded.inside header isHeader
  have notHeader : cell ≠ header := fun same => outside (same ▸ headerInside)
  have notSlot : cell ∉ pending header := fun mem => outside (slotsInside cell mem)
  rw [unthread_eq address (threaded.chain header isHeader) (threaded.nodup header isHeader)
    (threaded.aligned header isHeader) (threaded.plain header isHeader) enough,
    update_of_ne notHeader, if_neg notSlot]

theorem restrict (fewer : remaining ⊆ headers) (within : smaller ⊆ domain)
    (kept : ∀ header ∈ remaining, header ∈ smaller ∧ ∀ slot ∈ pending header, slot ∈ smaller)
    (gone : ∀ header ∈ headers, header ∉ remaining → header ∉ smaller ∧ pending header = []) :
    Threaded origin final place remaining smaller pending settled memory where
  chain header isHeader := threaded.chain header (fewer isHeader)
  plain header isHeader := threaded.plain header (fewer isHeader)
  placed header isHeader := threaded.placed header (fewer isHeader)
  aligned header isHeader := threaded.aligned header (fewer isHeader)
  nodup header isHeader := threaded.nodup header (fewer isHeader)
  apart left isLeft right isRight := threaded.apart left (fewer isLeft) right (fewer isRight)
  inside := kept
  pending_open header isHeader slot mem :=
    have old := threaded.pending_open header (fewer isHeader) slot mem
    ⟨fun isHeader => old.1 (fewer isHeader), old.2⟩
  settled_open slot isSettled isHeader := threaded.settled_open slot isSettled (fewer isHeader)
  value slot isSettled isInside := threaded.value slot isSettled (within isInside)
  untouched cell isInside notRemaining notSettled notPending := by
    apply threaded.untouched cell (within isInside) _ notSettled
    · intro header isHeader mem
      by_cases isRemaining : header ∈ remaining
      · exact notPending header isRemaining mem
      · simp [(gone header isHeader isRemaining).2] at mem
    · intro isHeader
      exact (gone cell isHeader notRemaining).1 isInside

theorem congr (same : ∀ cell ∈ domain, changed cell = memory cell) :
    Threaded origin final place headers domain pending settled changed :=
  { threaded with
    chain := fun header isHeader => by
      have inside := threaded.inside header isHeader
      rw [same header inside.1]
      exact (threaded.chain header isHeader).congr fun cell mem => same cell (inside.2 cell mem)
    value := fun slot isSettled isInside =>
      (same slot isInside).trans (threaded.value slot isSettled isInside)
    untouched := fun cell isInside notHeader notSettled notPending =>
      (same cell isInside).trans
        (threaded.untouched cell isInside notHeader notSettled notPending) }

theorem refill {cells : Set Nat} (fresh : ∀ cell ∈ cells, Fresh headers pending settled cell)
    (contents : ∀ cell ∈ cells, changed cell = filled cell)
    (same : ∀ cell ∉ cells, filled cell = origin cell ∧ relocated cell = final cell ∧
      changed cell = memory cell) :
    Threaded filled relocated place headers domain pending settled changed := by
  have atHeader : ∀ header ∈ headers, header ∉ cells := fun header isHeader inCells =>
    (fresh header inCells).not_header isHeader
  have atPending : ∀ header ∈ headers, ∀ slot ∈ pending header, slot ∉ cells :=
    fun header isHeader slot mem inCells => (fresh slot inCells).not_pending header isHeader mem
  have atSettled : ∀ slot ∈ settled, slot ∉ cells := fun slot isSettled inCells =>
    (fresh slot inCells).not_settled isSettled
  refine { threaded with chain := ?_, plain := ?_, placed := ?_, value := ?_, untouched := ?_ }
  · intro header isHeader
    obtain ⟨sameOrigin, -, sameMemory⟩ := same header (atHeader header isHeader)
    rw [sameOrigin, sameMemory]
    exact (threaded.chain header isHeader).congr fun cell mem =>
      (same cell (atPending header isHeader cell mem)).2.2
  · intro header isHeader
    rw [(same header (atHeader header isHeader)).1]
    exact threaded.plain header isHeader
  · intro header isHeader slot mem
    rw [(same slot (atPending header isHeader slot mem)).2.1]
    exact threaded.placed header isHeader slot mem
  · intro slot isSettled isInside
    obtain ⟨-, sameFinal, sameMemory⟩ := same slot (atSettled slot isSettled)
    rw [sameFinal, sameMemory]
    exact threaded.value slot isSettled isInside
  · intro cell isInside notHeader notSettled notPending
    by_cases inCells : cell ∈ cells
    · exact contents cell inCells
    · obtain ⟨sameOrigin, -, sameMemory⟩ := same cell inCells
      rw [sameOrigin, sameMemory]
      exact threaded.untouched cell isInside notHeader notSettled notPending

end

/-- A slot that is still to be threaded. Unless it is null it refers to the object
whose new address it is to hold. -/
structure Ready (origin final place headerOf : Nat → Nat) (headers domain : Set Nat)
    (slot : Nat) : Prop where
  inside : slot ∈ domain
  aligned : slot % 4 = 0
  isHeader : origin slot ≠ 0 → headerOf (origin slot) ∈ headers
  placed : origin slot ≠ 0 → final slot = place (headerOf (origin slot))

theorem threadAll (threaded : Threaded origin final place headers domain pending settled memory)
    (nodup : slots.Nodup) (fresh : ∀ slot ∈ slots, Fresh headers pending settled slot)
    (ready : ∀ slot ∈ slots, Ready origin final place headerOf headers domain slot) :
    ∃ next, Threaded origin final place headers domain next settled
        (threadAll headerOf memory slots) ∧
      ∀ header slot, slot ∈ next header ↔ slot ∈ pending header ∨
        slot ∈ slots ∧ origin slot ≠ 0 ∧ headerOf (origin slot) = header := by
  induction slots generalizing memory pending with
  | nil => exact ⟨pending, threaded, by simp⟩
  | cons slot rest ih =>
    obtain ⟨notLater, restNodup⟩ := nodup_cons.mp nodup
    have slotFresh := fresh slot (by simp)
    have slotReady := ready slot (by simp)
    have restReady : ∀ other ∈ rest, Ready origin final place headerOf headers domain other :=
      fun other mem => ready other (by simp [mem])
    rw [Threading.threadAll, foldl_cons, threaded.at_fresh slotFresh slotReady.inside]
    by_cases null : origin slot = 0
    · rw [if_pos null]
      obtain ⟨next, final, members⟩ := ih threaded restNodup
        (fun other mem => fresh other (by simp [mem])) restReady
      refine ⟨next, final, fun header other => ?_⟩
      rw [members, mem_cons]
      constructor
      · rintro (old | ⟨mem, notNull, target⟩)
        · exact .inl old
        · exact .inr ⟨.inr mem, notNull, target⟩
      · rintro (old | ⟨rfl | mem, notNull, target⟩)
        · exact .inl old
        · exact absurd null notNull
        · exact .inr ⟨mem, notNull, target⟩
    · rw [if_neg null]
      have first := threaded.thread (slotReady.isHeader null) slotFresh slotReady.inside
        slotReady.aligned (slotReady.placed null)
      obtain ⟨next, final, members⟩ := ih first restNodup (fun other mem =>
          have old := fresh other (by simp [mem])
          { old with
            not_pending := fun header isHeader inPushed =>
              (mem_push.mp inPushed).elim (old.not_pending header isHeader)
                fun isSlot => notLater (isSlot.1 ▸ mem) }) restReady
      refine ⟨next, final, fun header other => ?_⟩
      rw [members, mem_push, mem_cons]
      constructor
      · rintro ((old | ⟨rfl, target⟩) | ⟨mem, notNull, target⟩)
        · exact .inl old
        · exact .inr ⟨.inl rfl, null, target⟩
        · exact .inr ⟨.inr mem, notNull, target⟩
      · rintro (old | ⟨rfl | mem, notNull, target⟩)
        · exact .inl (.inl old)
        · exact .inl (.inr ⟨rfl, target⟩)
        · exact .inr ⟨mem, notNull, target⟩

end Threaded

end JamVM.Threading
