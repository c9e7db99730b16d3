import JamVM.Lock.MonitorWait

/-! # Delivery of notifications

The wait set is a ring ordered by `wait_id`. As long as the wait counter has
not wrapped around, comparing a `wait_id` with a `notify_id` tells whether a
thread was waiting when a notification was issued, and so a notification that
its receiver cannot use reaches another thread of that moment, if there is one.
-/

namespace JamVM.Lock

open Notice List Function TransitionSystem Option

attribute [local simp] setStatus waitSetAppend waitSetUnlinkThread

variable {Thread : Type u}

/-! ## The wait set and the waits in progress -/

structure Queue (state : State Thread) (nodes : List Thread) : Prop where
  ring : Ring state.links nodes
  head : state.monitor.waitSet = nodes.head?
  count : state.monitor.waitCount = state.begun
  bound : state.begun < counterRange
  owned : ∀ thread, state.monitor.owner = some thread → state.wait thread = none
  begun : ∀ thread wait, state.wait thread = some wait → wait.serial < state.begun
  waitId : ∀ thread wait, state.wait thread = some wait → state.waitId thread = wait.serial
  unique : ∀ first second wait other, state.wait first = some wait →
    state.wait second = some other → wait.serial = other.serial → first = second
  future : ∀ serial, state.begun ≤ serial → state.status serial = .absent
  linked : ∀ thread, thread ∈ nodes →
    ∃ wait, state.wait thread = some wait ∧ state.status wait.serial = .waiting
  unlinked : ∀ thread wait, state.wait thread = some wait → thread ∉ nodes →
    state.status wait.serial = .notified ∧ wait.asleep = false
  current : ∀ serial, state.status serial = .waiting ∨ state.status serial = .notified →
    ∃ thread wait, state.wait thread = some wait ∧ wait.serial = serial
  sorted : nodes.Pairwise fun first second => state.waitId first < state.waitId second

def Outcome.recipient : Outcome → Option Nat
  | .held serial | .delivered serial => some serial
  | .dropped => none

attribute [local simp] Outcome.recipient

structure Valid (state : State Thread) (notice : Notice) : Prop where
  bounded : notice.issued ≤ state.begun
  early : ∀ serial, notice.candidates serial = true → serial < notice.issued
  complete : ∀ serial, state.status serial = .waiting → serial < notice.issued →
    notice.candidates serial = true
  candidate : ∀ serial, notice.outcome.recipient = some serial → notice.candidates serial = true
  held : ∀ serial, notice.outcome = .held serial → state.status serial = .notified
  notifyId : ∀ thread wait, state.wait thread = some wait →
    notice.outcome = .held wait.serial → state.notifyId thread = notice.issued
  delivered : ∀ serial, notice.outcome = .delivered serial → state.status serial = .left true
  dropped : notice.outcome = .dropped →
    ∀ serial, notice.candidates serial = true → state.status serial ≠ .waiting

def Distinct (notices : List Notice) : Prop :=
  notices.Pairwise fun first second => ∀ serial,
    first.outcome.recipient = some serial → second.outcome.recipient ≠ some serial

structure Notices (state : State Thread) : Prop where
  valid : ∀ notice ∈ state.notices, Valid state notice
  distinct : Distinct state.notices
  covered : ∀ serial, state.status serial = .notified ∨ state.status serial = .left true →
    ∃ notice ∈ state.notices, notice.outcome.recipient = some serial

section
variable {state : State Thread} {nodes : List Thread}

theorem Queue.mem_iff (queue : Queue state nodes) (thread : Thread) :
    thread ∈ nodes ↔ state.links.next thread ≠ none :=
  queue.ring.mem_iff_next thread

variable {thread self head : Thread} {wait : Wait} {timed interruptible : Bool} {rest : List Thread}
  {next : State Thread} {notice : Notice} {serial : Nat} {outcome : Outcome}

theorem Queue.not_mem_of_wait_none (queue : Queue state nodes)
    (idle : state.wait thread = none) : thread ∉ nodes := by
  intro mem
  obtain ⟨wait, waiting, -⟩ := queue.linked thread mem
  simp [idle] at waiting

theorem Queue.waiting_iff (queue : Queue state nodes) (waiting : state.wait thread = some wait) :
    state.status wait.serial = .waiting ↔ thread ∈ nodes := by
  constructor
  · intro status
    by_contra outside
    simp [(queue.unlinked thread wait waiting outside).1] at status
  · intro mem
    obtain ⟨other, same, status⟩ := queue.linked thread mem
    rwa [some.inj (waiting.symm.trans same)]

theorem Valid.of_changes (valid : Valid state notice) (begun : state.begun ≤ next.begun)
    (waiting : ∀ serial, next.status serial = .waiting → serial < state.begun →
      state.status serial = .waiting)
    (recipient : ∀ serial, notice.outcome.recipient = some serial →
      next.status serial = state.status serial)
    (notifyId : ∀ thread wait, next.wait thread = some wait →
      notice.outcome = .held wait.serial → ∃ pre, state.wait thread = some pre ∧
        pre.serial = wait.serial ∧ next.notifyId thread = state.notifyId thread) :
    Valid next notice where
  bounded := valid.bounded.trans begun
  __ := valid
  complete serial status early :=
    valid.complete serial (waiting serial status (early.trans_le valid.bounded)) early
  held serial held := (recipient serial (by rw [held]; rfl)).trans (valid.held serial held)
  notifyId thread wait waiting' held := by
    obtain ⟨pre, waiting', equal, same⟩ := notifyId thread wait waiting' held
    exact same.trans (valid.notifyId thread pre waiting' (equal ▸ held))
  delivered serial delivered :=
    (recipient serial (by rw [delivered]; rfl)).trans (valid.delivered serial delivered)
  dropped dropped serial candidate status :=
    valid.dropped dropped serial candidate
      (waiting serial status ((valid.early serial candidate).trans_le valid.bounded))

theorem Valid.recipient_status (valid : Valid state notice)
    (recipient : notice.outcome.recipient = some serial) :
    state.status serial = .notified ∧ notice.outcome = .held serial ∨
      state.status serial = .left true ∧ notice.outcome = .delivered serial := by
  cases outcome : notice.outcome with
  | held other =>
    obtain rfl : other = serial := by simpa [outcome] using recipient
    exact .inl ⟨valid.held other outcome, rfl⟩
  | delivered other =>
    obtain rfl : other = serial := by simpa [outcome] using recipient
    exact .inr ⟨valid.delivered other outcome, rfl⟩
  | dropped => simp [outcome] at recipient

theorem Valid.not_recipient (valid : Valid state notice)
    (status : state.status other = .waiting ∨ state.status other = .absent)
    (recipient : notice.outcome.recipient = some serial) : serial ≠ other := by
  rintro rfl
  rcases valid.recipient_status recipient with ⟨reached, -⟩ | ⟨reached, -⟩ <;>
    simp [reached] at status

theorem Notice.reassign_held (outcome : Outcome) (held : notice.outcome = .held serial) :
    notice.reassign serial outcome = { notice with outcome := outcome } :=
  if_pos held

theorem Notice.reassign_other (outcome : Outcome)
    (other : notice.outcome ≠ .held serial) : notice.reassign serial outcome = notice :=
  if_neg other

theorem Notices.distinct_reassign (notices : Notices state)
    (free : ∀ recipient, outcome.recipient = some recipient → recipient = serial ∨
      ∀ notice ∈ state.notices, notice.outcome.recipient ≠ some recipient) :
    Distinct (state.notices.map (reassign serial outcome)) := by
  rw [Distinct, pairwise_map]
  refine notices.distinct.imp_of_mem ?_
  intro first second firstMember secondMember distinct recipient firstRecipient secondRecipient
  by_cases firstHeld : first.outcome = .held serial
  · have secondOther : second.outcome ≠ .held serial := by
      intro secondHeld
      exact distinct serial (by rw [firstHeld]; rfl) (by rw [secondHeld]; rfl)
    rw [reassign_held _ firstHeld] at firstRecipient
    rw [reassign_other _ secondOther] at secondRecipient
    rcases free recipient firstRecipient with rfl | unused
    · exact distinct recipient (by rw [firstHeld]; rfl) secondRecipient
    · exact unused second secondMember secondRecipient
  · rw [reassign_other _ firstHeld] at firstRecipient
    by_cases secondHeld : second.outcome = .held serial
    · rw [reassign_held _ secondHeld] at secondRecipient
      rcases free recipient secondRecipient with rfl | unused
      · exact distinct recipient firstRecipient (by rw [secondHeld]; rfl)
      · exact unused first firstMember firstRecipient
    · rw [reassign_other _ secondHeld] at secondRecipient
      exact distinct recipient firstRecipient secondRecipient

theorem Valid.withOutcome (valid : Valid state notice) (begun : next.begun = state.begun)
    (waiting : ∀ serial, next.status serial = .waiting → state.status serial = .waiting)
    (candidate : ∀ serial, outcome.recipient = some serial → notice.candidates serial = true)
    (held : ∀ serial, outcome = .held serial → next.status serial = .notified)
    (notifyId : ∀ thread wait, next.wait thread = some wait →
      outcome = .held wait.serial → next.notifyId thread = notice.issued)
    (delivered : ∀ serial, outcome = .delivered serial → next.status serial = .left true)
    (dropped : outcome = .dropped → ∀ serial, notice.candidates serial = true →
      state.status serial ≠ .waiting) :
    Valid next { notice with outcome := outcome } where
  bounded := begun ▸ valid.bounded
  early := valid.early
  complete serial status := valid.complete serial (waiting serial status)
  candidate := candidate
  held := held
  notifyId := notifyId
  delivered := delivered
  dropped isDropped serial isCandidate status :=
    dropped isDropped serial isCandidate (waiting serial status)

theorem Notices.of_eq (notices : Notices state)
    (begun : next.begun = state.begun) (status : next.status = state.status)
    (wait : next.wait = state.wait) (notifyId : next.notifyId = state.notifyId)
    (same : next.notices = state.notices) : Notices next where
  valid notice mem := by
    refine (notices.valid notice (same ▸ mem)).of_changes begun.ge
      (fun _ waiting _ => status ▸ waiting) (fun _ _ => by rw [status]) ?_
    intro thread found waiting _
    exact ⟨found, wait ▸ waiting, rfl, by rw [notifyId]⟩
  distinct := same ▸ notices.distinct
  covered serial reached := by
    rw [status] at reached
    rw [same]
    exact notices.covered serial reached

theorem Notices.setWait {wait : Thread → Option Wait} (notices : Notices state)
    (same : ∀ thread found, wait thread = some found →
      ∃ pre, state.wait thread = some pre ∧ pre.serial = found.serial) :
    Notices { state with wait := wait } where
  valid notice mem := (notices.valid notice mem).of_changes le_rfl (fun _ status _ => status)
    (fun _ _ => rfl) fun thread found waiting _ => by
      obtain ⟨pre, waiting, serial⟩ := same thread found waiting
      exact ⟨pre, waiting, serial, rfl⟩
  __ := notices

theorem Queue.length_le (queue : Queue state nodes) : nodes.length ≤ state.begun := by
  have nodup : (nodes.map state.waitId).Nodup :=
    (pairwise_map.mpr queue.sorted).imp fun less => less.ne
  have bounded : nodes.map state.waitId ⊆ range state.begun := by
    intro id mem
    obtain ⟨thread, inside, rfl⟩ := mem_map.mp mem
    obtain ⟨wait, waiting, -⟩ := queue.linked thread inside
    rw [mem_range, queue.waitId thread wait waiting]
    exact queue.begun thread wait waiting
  simpa using (nodup.subperm bounded).length_le

variable [DecidableEq Thread]

/-! ## The wait set under its operations -/

theorem Queue.waitSetUnlinkThread_head (queue : Queue state nodes) (mem : thread ∈ nodes) :
    (waitSetUnlinkThread state thread).monitor.waitSet = (nodes.erase thread).head? := by
  have head := queue.head
  cases nodes with
  | nil => simp at mem
  | cons first rest =>
    obtain rfl | same := eq_or_ne first thread
    · have next := queue.ring.next_head
      have fresh := (nodup_cons.mp queue.ring.nodup).1
      cases rest with
      | nil => simp_all
      | cons second =>
        have ne : second ≠ first := fun equal => fresh (by simp [equal])
        simp_all
    · have kept : (first :: rest).erase thread = first :: rest.erase thread := by
        simp [same]
      rw [kept]
      simp_all

theorem Queue.beginWait (queue : Queue state nodes) (owner : state.monitor.owner = some self)
    (room : state.begun + 1 < counterRange)
    (waits : ¬ (interruptible ∧ state.interrupted self)) :
    Queue (beginWait state self timed interruptible) (nodes ++ [self]) := by
  have idle := queue.owned self owner
  have fresh := queue.not_mem_of_wait_none idle
  have ne_begun {thread : Thread} {other : Wait} (waiting : state.wait thread = some other) :
      other.serial ≠ state.begun := (queue.begun thread other waiting).ne
  unfold Lock.beginWait
  rw [if_neg waits]
  constructor
  case ring =>
    cases nodes with
    | nil => simpa [queue.head] using queue.ring.singleton self
    | cons => simpa [queue.head] using queue.ring.insertLast fresh
  case head => cases nodes <;> simp [queue.head]
  case count => simpa [queue.count] using Nat.mod_eq_of_lt room
  case bound => exact room
  case owned => simp
  case begun =>
    intro thread wait waiting
    simp only [setStatus, waitSetAppend, update_apply] at waiting ⊢
    split at waiting
    · cases waiting
      exact Nat.lt_succ_self _
    · exact Nat.lt_succ_of_lt (queue.begun thread wait waiting)
  case waitId =>
    intro thread wait waiting
    simp only [setStatus, waitSetAppend, update_apply] at waiting ⊢
    split at waiting
    · rename_i same
      cases waiting
      rw [if_pos same, queue.count]
    · rename_i ne
      rw [if_neg ne]
      exact queue.waitId thread wait waiting
  case unique =>
    intro first second wait other firstWaiting secondWaiting equal
    simp only [setStatus, waitSetAppend, update_apply] at firstWaiting secondWaiting
    split at firstWaiting <;> split at secondWaiting
    · simp_all
    · cases firstWaiting
      exact absurd equal.symm (ne_begun secondWaiting)
    · cases secondWaiting
      exact absurd equal (ne_begun firstWaiting)
    · exact queue.unique first second wait other firstWaiting secondWaiting equal
  case future =>
    intro serial later
    simp only [setStatus, waitSetAppend, update_apply] at later ⊢
    rw [if_neg (Nat.lt_of_succ_le later).ne']
    exact queue.future serial (Nat.le_of_succ_le later)
  case linked =>
    intro thread mem
    simp only [setStatus, waitSetAppend, update_apply]
    by_cases same : thread = self
    · simp [same]
    · obtain ⟨wait, waiting, status⟩ := queue.linked thread (by simpa [same] using mem)
      exact ⟨wait, by rwa [if_neg same], by rwa [if_neg (ne_begun waiting)]⟩
  case unlinked =>
    intro thread wait waiting notMember
    simp only [setStatus, waitSetAppend, update_apply] at waiting ⊢
    have outside : thread ∉ nodes ∧ thread ≠ self := by simpa using notMember
    rw [if_neg outside.2] at waiting
    rw [if_neg (ne_begun waiting)]
    exact queue.unlinked thread wait waiting outside.1
  case current =>
    intro serial status
    simp only [setStatus, waitSetAppend, update_apply] at status ⊢
    by_cases same : serial = state.begun
    · exact ⟨self, _, if_pos rfl, same.symm⟩
    · simp only [if_neg same] at status
      obtain ⟨thread, wait, waiting, equal⟩ := queue.current serial status
      have ne : thread ≠ self := by
        rintro rfl
        simp [idle] at waiting
      exact ⟨thread, wait, by rwa [if_neg ne], equal⟩
  case sorted =>
    simp only [setStatus, waitSetAppend]
    have earlier {thread : Thread} (mem : thread ∈ nodes) :
        state.waitId thread < state.begun ∧ thread ≠ self := by
      obtain ⟨wait, waiting, -⟩ := queue.linked thread mem
      rw [queue.waitId thread wait waiting]
      exact ⟨queue.begun thread wait waiting, ne_of_mem_of_not_mem mem fresh⟩
    refine pairwise_append.mpr ⟨?_, pairwise_singleton _ _, ?_⟩
    · refine queue.sorted.imp_of_mem ?_
      intro first second firstMember secondMember ordered
      rwa [update_of_ne (earlier firstMember).2, update_of_ne (earlier secondMember).2]
    · intro first mem second last
      obtain rfl : second = self := by simpa using last
      rw [update_of_ne (earlier mem).2, update_self, queue.count]
      exact (earlier mem).1

theorem Queue.setWait (queue : Queue state nodes)
    (waiting : state.wait thread = some pre) (serial : post.serial = pre.serial)
    (awake : thread ∉ nodes → post.asleep = false) :
    Queue { state with wait := update state.wait thread (some post) } nodes := by
  have wait_before {other : Thread} {found : Wait}
      (waiting' : update state.wait thread (some post) other = some found) :
      ∃ wait, state.wait other = some wait ∧ found.serial = wait.serial ∧
        (other ≠ thread → found = wait) := by
    rw [update_apply] at waiting'
    split at waiting'
    · rename_i same
      cases waiting'
      exact ⟨pre, same ▸ waiting, serial, fun ne => absurd same ne⟩
    · exact ⟨found, waiting', rfl, fun _ => rfl⟩
  have wait_after {other : Thread} {wait : Wait} (waiting' : state.wait other = some wait) :
      ∃ found, update state.wait thread (some post) other = some found ∧
        found.serial = wait.serial := by
    obtain rfl | same := eq_or_ne other thread
    · obtain rfl := some.inj (waiting.symm.trans waiting')
      exact ⟨post, update_self .., serial⟩
    · exact ⟨wait, (update_of_ne same ..).trans waiting', rfl⟩
  refine { queue with
    owned := ?owned, begun := ?begun, waitId := ?waitId, unique := ?unique, linked := ?linked
    unlinked := ?unlinked, current := ?current }
  case owned =>
    intro other owner
    have idle := queue.owned other owner
    have ne : other ≠ thread := by
      rintro rfl
      simp [idle] at waiting
    exact (update_of_ne ne ..).trans idle
  case begun =>
    intro other found waiting'
    obtain ⟨wait, waiting', equal, -⟩ := wait_before waiting'
    exact equal ▸ queue.begun other wait waiting'
  case waitId =>
    intro other found waiting'
    obtain ⟨wait, waiting', equal, -⟩ := wait_before waiting'
    exact equal ▸ queue.waitId other wait waiting'
  case unique =>
    intro first second found other firstWaiting secondWaiting equal
    obtain ⟨firstWait, firstWaiting, firstEqual, -⟩ := wait_before firstWaiting
    obtain ⟨secondWait, secondWaiting, secondEqual, -⟩ := wait_before secondWaiting
    exact queue.unique first second firstWait secondWait firstWaiting secondWaiting
      (firstEqual ▸ secondEqual ▸ equal)
  case linked =>
    intro other mem
    obtain ⟨wait, waiting', status⟩ := queue.linked other mem
    obtain ⟨found, waiting', equal⟩ := wait_after waiting'
    exact ⟨found, waiting', equal ▸ status⟩
  case unlinked =>
    intro other found waiting' notMember
    obtain ⟨wait, before', equal, unchanged⟩ := wait_before waiting'
    obtain ⟨status, asleep⟩ := queue.unlinked other wait before' notMember
    refine ⟨equal ▸ status, ?_⟩
    obtain rfl | same := eq_or_ne other thread
    · have changed := (update_self ..).symm.trans waiting'
      exact some.inj changed ▸ awake notMember
    · exact unchanged same ▸ asleep
  case current =>
    intro serial' status
    obtain ⟨other, wait, waiting', equal⟩ := queue.current serial' status
    obtain ⟨found, waiting', same⟩ := wait_after waiting'
    exact ⟨other, found, waiting', same.trans equal⟩

def signalled (state : State Thread) (head : Thread) (wait : Wait) (rest : List Thread)
    (notifyId : Nat) : State Thread :=
  { state with
    monitor := { state.monitor with waitSet := rest.head? }
    links := state.links.unlink head
    wait := update state.wait head (some { wait with asleep := false })
    notifyId := update state.notifyId head notifyId
    status := update state.status wait.serial .notified }

attribute [local simp] signalled

theorem Queue.waitSetSignalNext_eq
    (queue : Queue state (head :: rest)) (waiting : state.wait head = some wait) :
    waitSetSignalNext state = (signalled state head wait rest state.begun, some head) := by
  have first := queue.waitSetUnlinkThread_head (mem_cons_self : head ∈ head :: rest)
  simp only [waitSetUnlinkThread] at first
  simp only [waitSetSignalNext, queue.head, head?_cons]
  simp [condSignal, serial, first, waiting, queue.count]

theorem Queue.signalled (queue : Queue state (head :: rest)) (waiting : state.wait head = some wait)
    (notifyId : Nat) : Queue (signalled state head wait rest notifyId) rest := by
  have fresh := (nodup_cons.mp queue.ring.nodup).1
  have status := (queue.waiting_iff waiting).mpr mem_cons_self
  have woken : Queue { state with
      wait := update state.wait head (some { wait with asleep := false }) } (head :: rest) :=
    queue.setWait waiting rfl (fun _ => rfl)
  have here : update state.wait head (some { wait with asleep := false }) head =
    some { wait with asleep := false } := update_self ..
  refine { woken with
    ring := queue.ring.unlink_head, head := rfl, sorted := (pairwise_cons.mp queue.sorted).2
    future := ?future, linked := ?linked, unlinked := ?unlinked, current := ?current }
  case future =>
    intro serial later
    have ne : serial ≠ wait.serial := ((queue.begun head wait waiting).trans_le later).ne'
    simpa [ne] using queue.future serial later
  case linked =>
    intro thread mem
    obtain ⟨found, waiting', status'⟩ := woken.linked thread (by simp [mem])
    have serial : found.serial ≠ wait.serial := fun equal =>
      ne_of_mem_of_not_mem mem fresh (woken.unique thread head found _ waiting' here equal)
    exact ⟨found, waiting', by simpa [serial] using status'⟩
  case unlinked =>
    intro thread found waiting' notMember
    obtain rfl | same := eq_or_ne thread head
    · obtain rfl := some.inj (here.symm.trans waiting')
      simp
    · have serial : found.serial ≠ wait.serial := fun equal =>
        same (woken.unique thread head found _ waiting' here equal)
      simpa [serial] using
        woken.unlinked thread found waiting' (not_mem_cons_of_ne_of_not_mem same notMember)
  case current =>
    intro serial status'
    refine woken.current serial ?_
    by_cases same : serial = wait.serial
    · exact .inl (same ▸ status)
    · simpa [same] using status'

section
variable (asNotified : Bool) (queue : Queue state nodes)
  (waiting : state.wait self = some wait)
include queue waiting

theorem Queue.reown (ring : Ring links remaining) (ordered : remaining.Sublist nodes)
    (others : ∀ thread, thread ∈ remaining ↔ thread ∈ nodes ∧ thread ≠ self) :
    Queue (reown { state with
      links := links
      monitor := { state.monitor with waitSet := remaining.head? } } self wait asNotified)
      remaining := by
  have serial_ne {thread : Thread} {found : Wait} (ne : thread ≠ self)
      (waiting' : state.wait thread = some found) : found.serial ≠ wait.serial :=
    fun equal => ne (queue.unique thread self found wait waiting' waiting equal)
  have wait_before {thread : Thread} {found : Wait}
      (waiting' : update state.wait self none thread = some found) :
      state.wait thread = some found ∧ thread ≠ self := by
    rw [update_apply] at waiting'
    split at waiting'
    · cases waiting'
    · exact ⟨waiting', by assumption⟩
  constructor
  case ring => exact ring
  case head => rfl
  case count => exact queue.count
  case bound => exact queue.bound
  case owned =>
    intro thread owner
    obtain rfl := some.inj owner
    exact update_self ..
  case begun =>
    intro thread found waiting'
    exact queue.begun thread found (wait_before waiting').1
  case waitId =>
    intro thread found waiting'
    exact queue.waitId thread found (wait_before waiting').1
  case unique =>
    intro first second found other firstWaiting secondWaiting
    exact queue.unique first second found other (wait_before firstWaiting).1
      (wait_before secondWaiting).1
  case future =>
    intro serial later
    have ne : serial ≠ wait.serial := ((queue.begun self wait waiting).trans_le later).ne'
    exact (update_of_ne ne ..).trans (queue.future serial later)
  case linked =>
    intro thread mem
    obtain ⟨mem, ne⟩ := (others thread).mp mem
    obtain ⟨found, waiting', status⟩ := queue.linked thread mem
    exact ⟨found, (update_of_ne ne ..).trans waiting',
      (update_of_ne (serial_ne ne waiting') ..).trans status⟩
  case unlinked =>
    intro thread found waiting' notMember
    obtain ⟨waiting', ne⟩ := wait_before waiting'
    have outside : thread ∉ nodes := fun mem => notMember ((others thread).mpr ⟨mem, ne⟩)
    obtain ⟨status, awake⟩ := queue.unlinked thread found waiting' outside
    exact ⟨(update_of_ne (serial_ne ne waiting') ..).trans status, awake⟩
  case current =>
    intro serial status
    have ne : serial ≠ wait.serial := by
      rintro rfl
      simp [Lock.reown] at status
    obtain ⟨thread, found, waiting', equal⟩ := queue.current serial
      (by simpa [Lock.reown, ne] using status)
    have other : thread ≠ self := by
      rintro rfl
      exact ne (by rw [← equal, some.inj (waiting'.symm.trans waiting)])
    exact ⟨thread, found, (update_of_ne other ..).trans waiting', equal⟩
  case sorted => exact queue.sorted.sublist ordered

theorem Queue.reown_notified (free : self ∉ nodes) :
    Queue (Lock.reown state self wait asNotified) nodes := by
  have left := queue.reown asNotified waiting queue.ring (.refl nodes)
    (fun thread => ⟨fun mem => ⟨mem, ne_of_mem_of_not_mem mem free⟩, And.left⟩)
  rwa [← queue.head] at left

theorem Queue.reown_waiting (mem : self ∈ nodes) :
    Queue (Lock.reown (waitSetUnlinkThread state self) self wait asNotified)
      (nodes.erase self) := by
  have left := queue.reown asNotified waiting (queue.ring.unlink mem)
    erase_sublist (fun thread => by rw [queue.ring.nodup.mem_erase_iff, and_comm])
  rwa [← queue.waitSetUnlinkThread_head mem] at left

end

/-! ## Notifications under the operations -/

theorem Notices.beginWait (queue : Queue state nodes) (notices : Notices state)
    (waits : ¬ (interruptible ∧ state.interrupted self)) :
    Notices (beginWait state self timed interruptible) := by
  have absent := queue.future state.begun le_rfl
  unfold Lock.beginWait
  rw [if_neg waits]
  constructor
  case valid =>
    intro notice mem
    have valid := notices.valid notice mem
    refine valid.of_changes (Nat.le_succ _) ?_ ?_ ?_
    · intro serial status earlier
      simpa [earlier.ne] using status
    · intro serial recipient
      simp [valid.not_recipient (.inr absent) recipient]
    · intro thread wait waiting held
      simp only [setStatus, waitSetAppend, update_apply] at waiting
      split at waiting
      · cases waiting
        have status := valid.held _ held
        simp [absent] at status
      · exact ⟨wait, waiting, rfl, rfl⟩
  case distinct => exact notices.distinct
  case covered =>
    intro serial status
    have ne : serial ≠ state.begun := by
      rintro rfl
      simp at status
    exact notices.covered serial (by simpa [ne] using status)

theorem Valid.signalled (queue : Queue state (head :: rest))
    (waiting : state.wait head = some wait) (valid : Valid state notice)
    (notifyId : Nat) : Valid (signalled state head wait rest notifyId) notice := by
  have status := (queue.waiting_iff waiting).mpr mem_cons_self
  refine valid.of_changes le_rfl ?_ ?_ ?_
  · intro serial waiting' _
    by_cases same : serial = wait.serial
    · exact same ▸ status
    · simpa [same] using waiting'
  · intro serial recipient
    simp [valid.not_recipient (.inl status) recipient]
  · intro thread found waiting' held
    have ne : thread ≠ head := by
      rintro rfl
      simp only [Lock.signalled, update_self, some.injEq] at waiting'
      subst waiting'
      exact valid.not_recipient (.inl status) (by rw [held]; rfl) rfl
    exact ⟨found, by simpa [ne] using waiting', rfl, by simp [ne]⟩

def freshNotice (state : State Thread) (wait : Wait) : Notice where
  issued := state.begun
  candidates serial := state.status serial = .waiting
  outcome := .held wait.serial

attribute [local simp] freshNotice

theorem Queue.notifyNext_eq
    (queue : Queue state (head :: rest)) (waiting : state.wait head = some wait) :
    notifyNext state = ({ Lock.signalled state head wait rest state.begun with
      notices := state.notices ++ [freshNotice state wait] }, some head) := by
  simp [notifyNext, queue.waitSetSignalNext_eq waiting, serial, waiting]

theorem Notices.issue (queue : Queue state (head :: rest)) (waiting : state.wait head = some wait)
    (notices : Notices state) :
    Notices { signalled state head wait rest state.begun with
      notices := state.notices ++ [freshNotice state wait] } := by
  have status := (queue.waiting_iff waiting).mpr mem_cons_self
  constructor
  case valid =>
    intro notice mem
    rcases mem_append.mp mem with old | new
    · have valid := (notices.valid notice old).signalled queue waiting state.begun
      exact { valid with }
    · obtain rfl : notice = freshNotice state wait := by simpa using new
      constructor
      case bounded => exact le_rfl
      case early =>
        intro serial candidate
        by_contra later
        have absent := queue.future serial (not_lt.mp later)
        simp [absent] at candidate
      case complete =>
        intro serial status' _
        have ne : serial ≠ wait.serial := by
          rintro rfl
          simp at status'
        simpa [ne] using status'
      case candidate =>
        intro serial recipient
        obtain rfl : wait.serial = serial := by simpa using recipient
        simpa using status
      case held =>
        intro serial held
        obtain rfl : wait.serial = serial := by simpa using held
        simp
      case notifyId =>
        intro thread found waiting' held
        have equal : wait.serial = found.serial := by simpa using held
        have same : thread = head := by
          by_contra ne
          simp only [signalled, update_of_ne ne] at waiting'
          exact ne (queue.unique thread head found wait waiting' waiting equal.symm)
        simp [same]
      case delivered | dropped => simp
  case distinct =>
    refine pairwise_append.mpr ⟨notices.distinct, pairwise_singleton _ _, ?_⟩
    intro old mem new last serial recipient
    obtain rfl : new = freshNotice state wait := by simpa using last
    intro same
    obtain rfl : wait.serial = serial := by simpa using same
    exact (notices.valid old mem).not_recipient (.inl status) recipient rfl
  case covered =>
    intro serial status'
    by_cases same : serial = wait.serial
    · exact ⟨freshNotice state wait, by simp, by rw [same]; rfl⟩
    · obtain ⟨notice, mem, recipient⟩ := notices.covered serial (by simpa [same] using status')
      exact ⟨notice, by simp [mem], recipient⟩

theorem Valid.reown (asNotified : Bool) (valid : Valid state notice)
    (other : notice.outcome.recipient ≠ some wait.serial) :
    Valid (reown state self wait asNotified) notice := by
  refine valid.of_changes le_rfl ?_ ?_ ?_
  · intro serial waiting _
    have ne : serial ≠ wait.serial := by
      rintro rfl
      simp [Lock.reown] at waiting
    simpa [Lock.reown, ne] using waiting
  · intro serial recipient
    have ne : serial ≠ wait.serial := by
      rintro rfl
      exact other recipient
    simp [Lock.reown, ne]
  · intro thread found waiting _
    simp only [Lock.reown, setStatus, update_apply] at waiting
    split at waiting
    · cases waiting
    · exact ⟨found, waiting, rfl, rfl⟩

theorem reown_status (state : State Thread) (self : Thread) (wait : Wait)
    (asNotified : Bool) (serial : Nat) :
    (reown state self wait asNotified).status serial =
      if serial = wait.serial then .left asNotified else state.status serial :=
  update_apply ..

theorem Notices.withdraw (self : Thread) (notices : Notices state)
    (status : state.status wait.serial = .waiting) :
    Notices (reown state self wait false) := by
  constructor
  case valid =>
    intro notice mem
    have valid := notices.valid notice mem
    exact valid.reown false fun recipient => valid.not_recipient (.inl status) recipient rfl
  case distinct => exact notices.distinct
  case covered =>
    intro serial status'
    have ne : serial ≠ wait.serial := by
      rintro rfl
      simp [reown] at status'
    exact notices.covered serial (by simpa [reown, ne] using status')

/-- A notified wait ends, and its notification gets a new outcome. Another
thread may have been signalled before, in the state `changed`. -/
theorem Notices.resolve (notices : Notices state) (status : state.status wait.serial = .notified)
    (others : ∀ notice ∈ state.notices, notice.outcome ≠ .held wait.serial → Valid changed notice)
    (distinct : Distinct (state.notices.map (reassign wait.serial outcome)))
    (resolved : ∀ notice ∈ state.notices, notice.outcome = .held wait.serial →
      Valid (reown changed self wait asNotified) { notice with outcome := outcome })
    (isNotified : asNotified = true → outcome.recipient = some wait.serial)
    (recipient : ∀ serial, changed.status serial = .notified ∨ changed.status serial = .left true →
      outcome.recipient = some serial ∨
        state.status serial = .notified ∨ state.status serial = .left true) :
    Notices (reown { changed with
      notices := state.notices.map (reassign wait.serial outcome) }
        self wait asNotified) := by
  have isHeld {notice : Notice} (mem : notice ∈ state.notices)
      (found : notice.outcome.recipient = some wait.serial) :
      notice.outcome = .held wait.serial := by
    rcases (notices.valid notice mem).recipient_status found with same | other
    · exact same.2
    · simp [status] at other
  constructor
  case valid =>
    intro notice mem
    obtain ⟨old, oldMember, rfl⟩ := mem_map.mp mem
    by_cases held : old.outcome = .held wait.serial
    · rw [reassign_held _ held]
      exact { resolved old oldMember held with }
    · rw [reassign_other _ held]
      refine { (others old oldMember held).reown asNotified fun recipient => ?_ with }
      exact held (isHeld oldMember recipient)
  case distinct => exact distinct
  case covered =>
    intro serial reached
    by_cases new : outcome.recipient = some serial
    · obtain ⟨notice, mem, found⟩ := notices.covered wait.serial (.inl status)
      refine ⟨_, mem_map_of_mem mem, ?_⟩
      rwa [reassign_held _ (isHeld mem found)]
    rw [reown_status] at reached
    split at reached
    · rename_i same
      exact absurd (same ▸ isNotified (by simpa using reached)) new
    · rename_i ne
      obtain ⟨other, otherMember, found⟩ :=
        notices.covered serial ((recipient serial reached).resolve_left new)
      refine ⟨_, mem_map_of_mem otherMember, ?_⟩
      rwa [reassign_other]
      intro same
      rw [same] at found
      exact ne (some.inj found).symm

theorem waiting_of_reown (status : (reown state self wait asNotified).status serial = .waiting) :
    state.status serial = .waiting := by
  rw [reown_status] at status
  split at status
  · cases status
  · exact status

theorem Notices.deliver (self : Thread) (notices : Notices state)
    (status : state.status wait.serial = .notified) :
    Notices (reown { state with
      notices := state.notices.map
        (reassign wait.serial (.delivered wait.serial)) } self wait true) := by
  refine notices.resolve status (fun notice mem _ => notices.valid notice mem)
    (notices.distinct_reassign fun _ same => .inl (some.inj same).symm) ?_
    (fun _ => rfl) fun _ => .inr
  intro notice mem held
  have valid := notices.valid notice mem
  refine valid.withOutcome rfl (fun _ => waiting_of_reown) ?_ (by simp) (by simp) ?_ (by simp)
  · intro serial recipient
    exact valid.candidate serial (by rw [held]; exact recipient)
  · rintro serial ⟨⟩
    rw [reown_status, if_pos rfl]

theorem Notices.drop (self : Thread) (notices : Notices state)
    (status : state.status wait.serial = .notified)
    (none : ∀ notice ∈ state.notices, notice.outcome = .held wait.serial →
      ∀ serial, notice.candidates serial = true → state.status serial ≠ .waiting) :
    Notices (reown { state with
      notices := state.notices.map (reassign wait.serial .dropped) } self wait false) := by
  refine notices.resolve status (fun notice mem _ => notices.valid notice mem)
    (notices.distinct_reassign fun _ same => by cases same) ?_ nofun fun _ => .inr
  intro notice mem held
  exact (notices.valid notice mem).withOutcome rfl (fun _ => waiting_of_reown)
    (fun _ same => by cases same) (by simp) (by simp) (by simp) (fun _ => none notice mem held)

theorem Notices.forward (queue : Queue state (head :: rest)) (notices : Notices state)
    (waiting : state.wait self = some wait) (status : state.status wait.serial = .notified)
    (otherWaiting : state.wait head = some other)
    (earlier : state.waitId head < state.notifyId self) :
    Notices (reown { signalled state head other rest (state.notifyId self) with
      notices := state.notices.map
        (reassign wait.serial (.held other.serial)) } self wait false) := by
  have otherStatus := (queue.waiting_iff otherWaiting).mpr mem_cons_self
  have ne : other.serial ≠ wait.serial := by
    intro same
    simp [same, status] at otherStatus
  refine notices.resolve status ?_ ?_ ?_ nofun ?_
  · exact fun notice mem _ => (notices.valid notice mem).signalled queue otherWaiting _
  · refine notices.distinct_reassign fun recipient same => .inr fun notice mem found => ?_
    exact (notices.valid notice mem).not_recipient (.inl otherStatus) found (some.inj same).symm
  · intro notice mem held
    have valid := notices.valid notice mem
    have issued : state.notifyId self = notice.issued := valid.notifyId self wait waiting held
    refine valid.withOutcome rfl ?_ ?_ ?_ ?_ (by simp) (by simp)
    · intro serial status'
      have status' := waiting_of_reown status'
      by_cases same : serial = other.serial
      · exact same ▸ otherStatus
      · simpa [same] using status'
    · rintro serial ⟨⟩
      refine valid.complete other.serial otherStatus ?_
      rwa [← issued, ← queue.waitId head other otherWaiting]
    · rintro serial ⟨⟩
      rw [reown_status, if_neg ne]
      simp
    · intro thread found found' same
      have equal : other.serial = found.serial := by simpa using same
      have isHead : thread = head := by
        by_contra notHead
        simp only [reown, setStatus, signalled, update_apply, if_neg notHead] at found'
        split at found'
        · cases found'
        · exact notHead (queue.unique thread head found other found' otherWaiting equal.symm)
      simp [reown, isHead, issued]
  · intro serial reached
    by_cases same : serial = other.serial
    · exact .inl (by rw [same]; rfl)
    · exact .inr (by simpa [same] using reached)

/-! ## Every step keeps the invariant -/

def Consistent (state : State Thread) : Prop := ∃ nodes, Queue state nodes ∧ Notices state

theorem Consistent.setWait (post : Wait)
    (sane : Consistent state) (waiting : state.wait thread = some pre)
    (serial : post.serial = pre.serial)
    (awake : state.links.next thread = none → post.asleep = false) :
    Consistent { state with wait := update state.wait thread (some post) } := by
  obtain ⟨nodes, queue, notices⟩ := sane
  refine ⟨nodes, queue.setWait waiting serial fun notMember => ?_, notices.setWait ?_⟩
  · exact awake (queue.ring.outside thread notMember).1
  · intro other found waiting'
    rw [update_apply] at waiting'
    split at waiting'
    · rename_i same
      cases waiting'
      exact ⟨pre, same ▸ waiting, serial.symm⟩
    · exact ⟨found, waiting', rfl⟩

section
variable (sane : Consistent state)
include sane

theorem Consistent.condSignal (thread : Thread) : Consistent (condSignal state thread) := by
  cases waiting : state.wait thread with
  | none => rwa [Lock.condSignal, waiting, Option.map_none, ← waiting, update_eq_self]
  | some wait =>
    simpa [Lock.condSignal, waiting] using
      sane.setWait { wait with asleep := false } waiting rfl fun _ => rfl

theorem Consistent.notifyNext_cases :
    notifyNext state = (state, none) ∧ (∀ serial, state.status serial ≠ .waiting) ∨
      ∃ next head, notifyNext state = (next, some head) ∧ Consistent next := by
  obtain ⟨nodes, queue, notices⟩ := sane
  cases nodes with
  | nil =>
    refine .inl ⟨by simp [notifyNext, waitSetSignalNext, queue.head], ?_⟩
    intro serial status
    obtain ⟨thread, wait, waiting, rfl⟩ := queue.current serial (.inl status)
    have other := (queue.unlinked thread wait waiting not_mem_nil).1
    simp [status] at other
  | cons head rest =>
    obtain ⟨wait, waiting, -⟩ := queue.linked head (by simp)
    refine .inr ⟨_, head, queue.notifyNext_eq waiting, rest, ?_, notices.issue queue waiting⟩
    exact { queue.signalled waiting state.begun with }

theorem Consistent.notifyLoop (fuel : Nat) : Consistent (notifyLoop fuel state) := by
  induction fuel generalizing state with
  | zero => exact sane
  | succ fuel ih =>
    rcases sane.notifyNext_cases with ⟨nobody, -⟩ | ⟨next, head, notified, post⟩
    · simpa [Lock.notifyLoop, nobody] using sane
    · simpa [Lock.notifyLoop, notified] using ih post

section
variable (waiting : state.wait self = some wait)
include waiting

theorem Consistent.forward (unlinked : state.links.next self = none) :
    Consistent (reown (forward state self) self wait false) := by
  obtain ⟨nodes, queue, notices⟩ := sane
  have outside : self ∉ nodes := fun mem => (queue.mem_iff self).mp mem unlinked
  have status := (queue.unlinked self wait waiting outside).1
  have isSerial : serial state self = wait.serial := by simp [serial, waiting]
  cases nodes with
  | nil =>
    have dropped := notices.drop self status fun notice _ _ serial _ status' => by
      obtain ⟨thread, found, waiting', rfl⟩ := queue.current serial (.inl status')
      simpa [status'] using (queue.unlinked thread found waiting' not_mem_nil).1
    have head : state.monitor.waitSet = none := queue.head
    simp only [Lock.forward, head, isSerial]
    exact ⟨[], { queue.reown_notified false waiting outside with }, dropped⟩
  | cons first rest =>
    have head : state.monitor.waitSet = some first := queue.head
    obtain ⟨other, otherWaiting, otherStatus⟩ := queue.linked first (by simp)
    have ne : first ≠ self := fun same => outside (by simp [same])
    simp only [Lock.forward, head, isSerial]
    split
    · rename_i earlier
      have otherSerial : serial state first = other.serial := by simp [serial, otherWaiting]
      have forwarded := notices.forward queue waiting status otherWaiting earlier
      have signalled := queue.signalled otherWaiting (state.notifyId self)
      have left := signalled.reown_notified false ((update_of_ne ne.symm ..).trans waiting)
        (fun mem => outside (by simp [mem]))
      refine ⟨rest, ?_, ?_⟩
      · simp only [queue.waitSetSignalNext_eq otherWaiting]
        exact { left with }
      · simpa [queue.waitSetSignalNext_eq otherWaiting, otherSerial] using forwarded
    · rename_i later
      have dropped := notices.drop self status fun notice mem held serial candidate status' => by
        have valid := notices.valid notice mem
        have issued := valid.notifyId self wait waiting held
        obtain ⟨thread, found, waiting', rfl⟩ := queue.current serial (.inl status')
        have isId := queue.waitId thread found waiting'
        have early := valid.early _ candidate
        have ordered : state.waitId first ≤ state.waitId thread := by
          rcases mem_cons.mp ((queue.waiting_iff waiting').mp status') with rfl | inRest
          · exact le_rfl
          · exact (rel_of_pairwise_cons queue.sorted inRest).le
        omega
      exact ⟨first :: rest, { queue.reown_notified false waiting outside with }, dropped⟩

theorem Consistent.abandon : Consistent (abandon state self wait) := by
  unfold Lock.abandon
  split
  · rename_i linked
    obtain ⟨nodes, queue, notices⟩ := sane
    have mem := (queue.mem_iff self).mpr linked
    have status := (queue.waiting_iff waiting).mpr mem
    exact ⟨_, queue.reown_waiting false waiting mem,
      (notices.withdraw self status).of_eq rfl rfl rfl rfl rfl⟩
  · rename_i unlinked
    exact sane.forward waiting (not_not.mp unlinked)

theorem Consistent.leave
    (leaves : ¬ (state.links.next self ≠ none ∧ ¬ state.interrupting self ∧ ¬ wait.timeout)) :
    Consistent (leave state self wait) := by
  unfold Lock.leave
  split
  · split
    · obtain ⟨nodes, queue, notices⟩ := sane.abandon waiting
      exact ⟨nodes, { queue with }, notices.of_eq rfl rfl rfl rfl rfl⟩
    · exact sane.abandon waiting
  · rename_i asNotified
    have unlinked : state.links.next self = none := by
      by_contra linked
      exact leaves ⟨linked, by simpa using asNotified⟩
    obtain ⟨nodes, queue, notices⟩ := sane
    have outside : self ∉ nodes := fun mem => (queue.mem_iff self).mp mem unlinked
    have status := (queue.unlinked self wait waiting outside).1
    exact ⟨nodes, { queue.reown_notified true waiting outside with }, notices.deliver self status⟩

end

theorem Consistent.beginWait (owner : state.monitor.owner = some self)
    (room : ¬ (interruptible ∧ state.interrupted self) → state.begun + 1 < counterRange) :
    Consistent (beginWait state self timed interruptible) := by
  obtain ⟨nodes, queue, notices⟩ := sane
  by_cases waits : interruptible ∧ state.interrupted self
  · rw [Lock.beginWait, if_pos waits]
    exact ⟨nodes, { queue with }, notices.of_eq rfl rfl rfl rfl rfl⟩
  · exact ⟨_, queue.beginWait owner (room waits) waits, notices.beginWait queue waits⟩

end

def Unwrapped (state : State Thread) : Action Thread → Prop
  | .wait self _ interruptible =>
    ¬ (interruptible ∧ state.interrupted self) → state.begun + 1 < counterRange
  | _ => True

instance (state : State Thread) (action : Action Thread) : Decidable (Unwrapped state action) :=
  match action with
  | .wait _ _ _ => inferInstanceAs (Decidable (_ → _))
  | .lock _ | .unlock _ | .notify _ | .notifyAll _ | .interrupt _ | .raise _ | .wake _
  | .expire _ | .resume _ => isTrue trivial

theorem Consistent.step (sane : Consistent state) (unwrapped : Unwrapped state action)
    (ran : Lock.step state action = some next) : Consistent next := by
  cases action with
  | lock =>
    obtain ⟨nodes, queue, notices⟩ := sane
    simp only [Lock.step] at ran
    split at ran
    · cases ran
    rename_i idle
    split at ran
    · cases ran
      exact ⟨nodes, { queue with }, notices.of_eq rfl rfl rfl rfl rfl⟩
    split at ran
    · cases ran
      refine ⟨nodes, { queue with owned := ?_ }, notices.of_eq rfl rfl rfl rfl rfl⟩
      rintro thread ⟨⟩
      simpa using idle
    · cases ran
  | unlock =>
    obtain ⟨nodes, queue, notices⟩ := sane
    simp only [Lock.step] at ran
    split at ran
    · split at ran <;> cases ran
      · exact ⟨nodes, { queue with owned := fun _ none => by cases none },
          notices.of_eq rfl rfl rfl rfl rfl⟩
      · exact ⟨nodes, { queue with }, notices.of_eq rfl rfl rfl rfl rfl⟩
    · cases ran
  | wait =>
    obtain ⟨owner, rfl⟩ := of_guard ran
    exact sane.beginWait owner unwrapped
  | notify =>
    obtain ⟨-, rfl⟩ := of_guard ran
    rcases sane.notifyNext_cases with ⟨nobody, -⟩ | ⟨next, head, notified, post⟩
    · simpa [monitorNotify, nobody] using sane
    · simpa [monitorNotify, notified] using post
  | notifyAll =>
    obtain ⟨-, rfl⟩ := of_guard ran
    exact sane.notifyLoop _
  | interrupt =>
    cases ran
    obtain ⟨nodes, queue, notices⟩ := sane
    exact ⟨nodes, { queue with }, notices.of_eq rfl rfl rfl rfl rfl⟩
  | raise thread =>
    cases ran
    obtain ⟨nodes, queue, notices⟩ := sane
    refine Consistent.condSignal ⟨nodes, ?_, ?_⟩ thread
    · exact { queue with }
    · exact notices.of_eq rfl rfl rfl rfl rfl
  | wake thread =>
    cases ran
    exact sane.condSignal thread
  | expire =>
    simp only [Lock.step] at ran
    split at ran
    · rename_i wait waiting
      split at ran <;> cases ran
      exact sane.setWait _ waiting rfl fun _ => rfl
    · cases ran
  | resume =>
    simp only [Lock.step] at ran
    split at ran
    · rename_i wait waiting
      split at ran <;> cases ran
      rw [Lock.resume]
      split
      · rename_i stays
        exact sane.setWait _ waiting rfl fun unlinked => absurd unlinked stays.1
      · rename_i leaves
        exact sane.leave waiting leaves
    · cases ran

omit [DecidableEq Thread] in
theorem initialState_consistent : Consistent (initialState : State Thread) := by
  refine ⟨[], ⟨.empty, rfl, rfl, Nat.two_pow_pos 32, ?_, ?_, ?_, ?_, ?_, ?_, ?_, ?_, .nil⟩, ?_,
    .nil, ?_⟩ <;> simp [initialState]

theorem reachable_consistent (reachable : (system Thread).ReachableWhile Unwrapped state) :
    Consistent state := by
  refine reachable.invariant Consistent ?_ fun _ _ _ holds allowed => holds.step allowed
  rintro _ rfl
  exact initialState_consistent

/-! ## What the notifying calls do -/

theorem Queue.notifyLoop_status (queue : Queue state nodes)
    (notices : Notices state) (enough : nodes.length < fuel)
    (status : state.status serial = .waiting ∨ state.status serial = .notified) :
    (notifyLoop fuel state).status serial = .notified := by
  induction fuel generalizing state nodes with
  | zero => cases enough
  | succ fuel ih =>
    cases nodes with
    | nil =>
      have nobody : notifyNext state = (state, none) := by
        simp [notifyNext, waitSetSignalNext, queue.head]
      obtain ⟨thread, wait, waiting, rfl⟩ := queue.current serial status
      simpa [notifyLoop, nobody] using (queue.unlinked thread wait waiting not_mem_nil).1
    | cons head =>
      obtain ⟨wait, waiting, -⟩ := queue.linked head (by simp)
      have signalled := queue.signalled waiting state.begun
      rw [notifyLoop, queue.notifyNext_eq waiting]
      refine ih { signalled with } (notices.issue queue waiting) (Nat.lt_of_succ_lt_succ enough) ?_
      by_cases same : serial = wait.serial
      · exact .inr (by simp [same])
      · simpa [same] using status

/-- The wait set is a ring in the order of `wait_id`, and every notification
has gone to one wait of the moment it was issued: that wait is about to leave,
has left as notified, or no such wait remains. -/
structure Delivery (state : State Thread) : Prop where
  waitSet : ∃ nodes, Ring state.links nodes ∧ state.monitor.waitSet = nodes.head? ∧
    (nodes.Pairwise fun first second => state.waitId first < state.waitId second) ∧
      ∀ thread, thread ∈ nodes ↔
        ∃ wait, state.wait thread = some wait ∧ state.status wait.serial = .waiting
  outcome : ∀ notice ∈ state.notices, match notice.outcome with
    | .held serial => notice.candidates serial = true ∧
        ∃ thread wait, state.wait thread = some wait ∧ wait.serial = serial ∧
          state.links.next thread = none ∧ wait.asleep = false
    | .delivered serial => notice.candidates serial = true ∧ state.status serial = .left true
    | .dropped => ∀ serial, notice.candidates serial = true → state.status serial ≠ .waiting
  distinct : Distinct state.notices
  notified : ∀ serial, state.status serial = .notified ∨ state.status serial = .left true →
    ∃ notice ∈ state.notices, notice.outcome.recipient = some serial

structure NotifySteps (state : State Thread) : Prop where
  notify : ∀ self next, step state (.notify self) = some next →
    (∃ serial, state.status serial = .waiting) →
      ∃ notice serial, next.notices = state.notices ++ [notice] ∧
        (∀ other, notice.candidates other = true ↔ state.status other = .waiting) ∧
          notice.outcome = .held serial ∧ notice.candidates serial = true
  notifyAll : ∀ self next, step state (.notifyAll self) = some next →
    ∀ serial, state.status serial = .waiting → next.status serial = .notified
  resume : ∀ thread wait, state.wait thread = some wait →
    state.status wait.serial = .notified → state.monitor.owner = none →
      ∃ next, step state (.resume thread) = some next ∧ next.wait thread = none

omit [DecidableEq Thread] in
theorem Consistent.delivery (sane : Consistent state) : Delivery state := by
  obtain ⟨nodes, queue, notices⟩ := sane
  refine ⟨⟨nodes, queue.ring, queue.head, queue.sorted, ?_⟩, ?_, notices.distinct, notices.covered⟩
  · refine fun thread => ⟨queue.linked thread, ?_⟩
    rintro ⟨wait, waiting, status⟩
    exact (queue.waiting_iff waiting).mp status
  · intro notice mem
    have valid := notices.valid notice mem
    cases outcome : notice.outcome with
    | held serial =>
      have status := valid.held serial outcome
      obtain ⟨thread, wait, waiting, rfl⟩ := queue.current serial (.inr status)
      have outside : thread ∉ nodes := by simp [← queue.waiting_iff waiting, status]
      exact ⟨valid.candidate _ (by rw [outcome]; rfl), thread, wait, waiting, rfl,
        (queue.ring.outside thread outside).1, (queue.unlinked thread wait waiting outside).2⟩
    | delivered serial =>
      exact ⟨valid.candidate _ (by rw [outcome]; rfl), valid.delivered serial outcome⟩
    | dropped => exact valid.dropped outcome

theorem leave_wait : (leave state self wait).wait self = none := by
  unfold leave abandon
  split
  · split <;> split <;> exact update_self ..
  · exact update_self ..

theorem Consistent.notifySteps (sane : Consistent state) : NotifySteps state := by
  obtain ⟨nodes, queue, notices⟩ := sane
  refine ⟨?_, ?_, ?_⟩
  · rintro self next ran ⟨serial, status⟩
    obtain ⟨-, rfl⟩ := of_guard ran
    obtain ⟨thread, wait, waiting, rfl⟩ := queue.current serial (.inl status)
    have mem := (queue.waiting_iff waiting).mp status
    cases nodes with
    | nil => cases mem
    | cons head =>
      obtain ⟨first, firstWaiting, firstStatus⟩ := queue.linked head (by simp)
      refine ⟨freshNotice state first, first.serial, ?_, ?_, rfl, ?_⟩
      · rw [monitorNotify, queue.notifyNext_eq firstWaiting]
      · simp
      · simpa using firstStatus
  · intro self next ran serial status
    obtain ⟨-, rfl⟩ := of_guard ran
    exact queue.notifyLoop_status notices (Nat.lt_succ_of_le queue.length_le) (.inl status)
  · intro thread wait waiting status free
    have outside : thread ∉ nodes := by simp [← queue.waiting_iff waiting, status]
    have unlinked := (queue.ring.outside thread outside).1
    have awake := (queue.unlinked thread wait waiting outside).2
    refine ⟨Lock.leave state thread wait, ?_, leave_wait⟩
    simp [Lock.step, waiting, free, awake, resume, unlinked]

/-- Notifications reach a legitimate waiter as long as fewer than `2 ^ 32`
waits have begun on the monitor. -/
theorem monitorNotify_delivers (reachable : (system Thread).ReachableWhile Unwrapped state) :
    Delivery state ∧ NotifySteps state :=
  ⟨(reachable_consistent reachable).delivery, (reachable_consistent reachable).notifySteps⟩

end

theorem monitorNotify_delivers_first_waiter :
    ∃ state : State (Fin 3), state.status 0 = .notified ∧ state.status 1 = .waiting ∧
      Delivery state ∧ NotifySteps state := by
  have executed : ∃ state, (system (Fin 3)).runWhile Unwrapped initialState
      [.lock 0, .wait 0 true true, .lock 1, .wait 1 false true, .lock 2, .notify 2] =
        some state ∧ state.status 0 = .notified ∧ state.status 1 = .waiting :=
    ⟨_, rfl, rfl, rfl⟩
  obtain ⟨state, executed, notified, waiting⟩ := executed
  exact ⟨state, notified, waiting, monitorNotify_delivers (.of_runWhile (.initial rfl) executed)⟩

/-! ## Wrapping around

Timed waits that expire can be repeated any number of times. After `2 ^ 32`
of them the counters compare in the wrong order. -/

def quietState (begun : Nat) : State (Fin 3) :=
  { (initialState : State (Fin 3)) with
    monitor := { (initialState : State (Fin 3)).monitor with
      waitCount := begun % counterRange }
    waitId := fun thread => if thread = 0 then (begun - 1) % counterRange else 0
    begun := begun
    status := fun serial => if serial < begun then .left false else .absent }

theorem run_timedWait (begun : Nat) : (system (Fin 3)).run (quietState begun)
      [.lock 0, .wait 0 true false, .expire 0, .resume 0, .unlock 0] =
        some (quietState (begun + 1)) := by
  refine congrArg some (State.ext (Monitor.ext rfl rfl rfl (Nat.mod_add_mod ..) rfl)
    (Links.ext ?_ ?_) ?_ rfl rfl ?_ ?_ rfl ?_ rfl)
  rotate_left 5
  · funext serial
    change update (update (fun serial => if serial < begun then Status.left false
      else .absent) begun .waiting) begun (.left false) serial =
        if serial < begun + 1 then Status.left false else .absent
    rw [update_idem, update_apply]
    by_cases same : serial = begun
    · rw [if_pos same, if_pos (by omega)]
    · rw [if_neg same]
      by_cases earlier : serial < begun
      · rw [if_pos earlier, if_pos (by omega)]
      · rw [if_neg earlier, if_neg (by omega)]
  all_goals exact funext fun | 0 => rfl | 1 => rfl | 2 => rfl

theorem quietState_reachable (begun : Nat) : (system (Fin 3)).Reachable (quietState begun) := by
  induction begun with
  | zero =>
    refine .initial (State.ext rfl rfl ?_ rfl rfl rfl rfl rfl rfl rfl)
    exact funext fun | 0 => rfl | 1 => rfl | 2 => rfl
  | succ begun ih => exact .of_run ih (run_timedWait begun)

/-- After `2 ^ 32` waits a notification is dropped although a thread that was
waiting when it was issued is still waiting. -/
theorem monitorNotify_loses_notification :
    ∃ (state : State (Fin 3)) (notice : Notice) (serial : Nat),
      (system (Fin 3)).Reachable state ∧ notice ∈ state.notices ∧
        notice.outcome = .dropped ∧ notice.candidates serial = true ∧
          state.status serial = .waiting := by
  have executed : ∃ final, (system (Fin 3)).run (quietState (2 ^ 32 - 2))
      [.lock 0, .wait 0 true false, .lock 1, .wait 1 false false, .lock 2, .notify 2,
        .unlock 2, .expire 0, .resume 0] = some final ∧
          (final.notices.map fun notice => (notice.outcome, notice.candidates (2 ^ 32 - 1))) =
            [(.dropped, true)] ∧ final.status (2 ^ 32 - 1) = .waiting :=
    ⟨_, rfl, rfl, rfl⟩
  obtain ⟨final, executed, recorded, waiting⟩ := executed
  obtain ⟨notice, only, same⟩ := map_eq_singleton_iff.mp recorded
  obtain ⟨dropped, candidate⟩ := Prod.mk.inj same
  exact ⟨final, notice, 2 ^ 32 - 1, .of_run (quietState_reachable _) executed, by simp [only],
    dropped, candidate, waiting⟩

end JamVM.Lock
