import Mathlib.Data.BitVec

/-! # Processes on the Amiga

Signals that raise an exception in a process, and the end of all processes at shutdown.
-/

namespace JamVM.Amiga

/-! ## Signal masks -/

abbrev SigSet := BitVec 32

def sigkill : Nat := 2

def sigint : Nat := 12

def sigusr1 : Nat := 16

def sigquit : Nat := 6

def sigaddset (what : SigSet) (sig : Nat) : SigSet := what ||| 1#32 <<< sig

inductive BlockType
  | block
  | unblock
  | setmask

structure MaskCall where
  ofThread : Bool
  blockType : BlockType
  mask : SigSet

def setExcept (enabled newSignals signalMask : SigSet) : SigSet × SigSet :=
  (enabled, enabled &&& ~~~signalMask ||| newSignals &&& signalMask)

def changeMask (blockType : BlockType) (mask enabled : SigSet) : SigSet :=
  let (oldSignals, enabled) := setExcept enabled 0#32 0#32
  let newSignals := match blockType with
    | .block => mask &&& oldSignals
    | .unblock => oldSignals ||| ~~~mask
    | .setmask => mask
  let newSignals := sigaddset (sigaddset newSignals sigkill) sigint
  let (currentSignals, enabled) := setExcept enabled 0#32 0#32
  (setExcept enabled currentSignals newSignals).2

def pthreadSigmask := changeMask

def sigprocmask := changeMask

def MaskCall.apply (enabled : SigSet) (call : MaskCall) : SigSet :=
  (if call.ofThread then pthreadSigmask else sigprocmask) call.blockType call.mask enabled

def MaskCall.posix (enabled : SigSet) (call : MaskCall) : SigSet :=
  let newSignals := match call.blockType with
    | .block => enabled &&& ~~~call.mask
    | .unblock => enabled ||| call.mask
    | .setmask => ~~~call.mask
  sigaddset (sigaddset newSignals sigkill) sigint

theorem setExcept_zero (enabled : SigSet) : setExcept enabled 0#32 0#32 = (enabled, enabled) := by
  refine Prod.ext rfl ?_
  ext index inside
  simp only [setExcept, BitVec.getElem_or, BitVec.getElem_and, BitVec.getElem_not,
    BitVec.getElem_zero]
  cases enabled[index] <;> rfl

theorem setExcept_self (enabled signalMask : SigSet) :
    (setExcept enabled enabled signalMask).2 = enabled := by
  ext index inside
  simp only [setExcept, BitVec.getElem_or, BitVec.getElem_and, BitVec.getElem_not]
  cases enabled[index] <;> cases signalMask[index] <;> rfl

theorem changeMask_eq (blockType : BlockType) (mask enabled : SigSet) :
    changeMask blockType mask enabled = enabled := by
  simp only [changeMask, setExcept_zero, setExcept_self]

theorem apply_eq (enabled : SigSet) (call : MaskCall) : call.apply enabled = enabled := by
  unfold MaskCall.apply
  split <;> exact changeMask_eq ..

/-- No sequence of calls changes the enabled signals. So a call does what it should just when
nothing is to be changed. -/
theorem calls_posix_iff (enabled : SigSet) (calls : List MaskCall) (call : MaskCall) :
    calls.foldl MaskCall.apply enabled = enabled ∧
      (call.apply (calls.foldl MaskCall.apply enabled) =
          call.posix (calls.foldl MaskCall.apply enabled) ↔ call.posix enabled = enabled) := by
  have unchanged : calls.foldl MaskCall.apply enabled = enabled := by
    induction calls with
    | nil => rfl
    | cons call rest ih => rwa [List.foldl_cons, apply_eq]
  rw [unchanged, apply_eq]
  exact ⟨rfl, eq_comm⟩

/-- `disableSuspend0` does not block `SIGUSR1`. -/
theorem pthreadSigmask_block : ∃ enabled : SigSet, enabled.getLsbD sigkill = true ∧
    (pthreadSigmask .block (sigaddset 0 sigusr1) enabled).getLsbD sigusr1 = true :=
  ⟨sigaddset (sigaddset 0 sigkill) sigusr1, by decide⟩

/-! ## Waiting for signals -/

/-- The loop of `sigwait` over what `Wait` has returned. It does not end before the undefined shift
by 32 when there is none of the signals. -/
def sigwait (retSigMask : SigSet) : Option Nat :=
  (List.range' 1 31).find? fun i => (1#32 <<< i) &&& retSigMask = 1#32 <<< i

/-- A run of the signal-handler task: the pending signals, and what the calls of `Wait` have
returned. `Wait` takes some of the pending signals in the mask. -/
inductive Waits (mask : SigSet) : SigSet → List SigSet → Prop
  | initial : Waits mask 0 []
  | post {pending : SigSet} {returned : List SigSet} (sig : Nat) :
      Waits mask pending returned → Waits mask (sigaddset pending sig) returned
  | wait {pending : SigSet} {returned : List SigSet} (taken : SigSet) :
      Waits mask pending returned → taken ≠ 0 → taken &&& (pending &&& mask) = taken →
      Waits mask (pending &&& ~~~taken) (taken :: returned)

theorem Waits.within (waits : Waits mask pending returned) (mem : taken ∈ returned)
    (sig : Nat) (isTaken : taken.getLsbD sig = true) : mask.getLsbD sig = true := by
  induction waits with
  | initial => cases mem
  | post _ _ ih => exact ih mem
  | wait _ _ _ within ih =>
    rcases List.mem_cons.mp mem with rfl | earlier
    · rw [← within] at isTaken
      simp only [BitVec.getLsbD_and, Bool.and_eq_true] at isTaken
      exact isTaken.2.2
    · exact ih earlier

theorem sigwait_single : ∀ sig < 32, 0 < sig → sigwait (sigaddset 0 sig) = some sig := by
  decide

/-- If each `Wait` returns a single signal, then every signal that is taken is reported. -/
theorem sigwait_reports (signals : mask.getLsbD 0 = false) (waits : Waits mask pending returned)
    (single : ∀ taken ∈ returned, ∃ sig, taken = sigaddset 0 sig) :
    ∀ taken ∈ returned, ∀ sig, taken.getLsbD sig = true → some sig ∈ returned.map sigwait := by
  intro taken mem sig isTaken
  refine List.mem_map.mpr ⟨taken, mem, ?_⟩
  obtain ⟨only, rfl⟩ := single taken mem
  obtain rfl : sig = only := by
    simp [sigaddset, BitVec.getLsbD_shiftLeft, BitVec.getLsbD_one] at isTaken
    omega
  refine sigwait_single sig (BitVec.lt_of_getLsbD isTaken) (Nat.pos_of_ne_zero ?_)
  rintro rfl
  rw [waits.within mem 0 isTaken] at signals
  cases signals

/-- Both signals are pending at once, and two calls of `Wait` take one each. -/
theorem sigwait_reports_both :
    let returned := [sigaddset 0 sigint, sigaddset 0 sigquit]
    some sigquit ∈ returned.map sigwait ∧ some sigint ∈ returned.map sigwait := by
  intro returned
  have waits : Waits (sigaddset (sigaddset 0 sigquit) sigint) _ returned :=
    .wait (sigaddset 0 sigint) (.wait (sigaddset 0 sigquit)
      (.post sigint (.post sigquit .initial)) (by decide) (by decide)) (by decide) (by decide)
  have reports := sigwait_reports (by decide) waits (by simp [returned])
  exact ⟨reports _ (.tail _ (.head _)) sigquit (by decide),
    reports _ (.head _) sigint (by decide)⟩

/-- Of two signals that are taken together only the lower one is reported. -/
theorem sigwait_drops : ∃ pending signals, Waits signals pending [signals] ∧
    signals.getLsbD sigint = true ∧ some sigint ∉ [signals].map sigwait :=
  ⟨_, sigaddset (sigaddset 0 sigquit) sigint,
    .wait _ (.post sigint (.post sigquit .initial)) (by decide) (by decide), by decide, by decide⟩

/-! ## Shutdown

The first loop of `realAmigaExit` scans the processes of the system until there is no Java
thread left to wait for. -/

inductive TaskState
  | added
  | run
  | ready
  | wait
  | except
  | removed
  | suspended
  deriving DecidableEq

/-- `isJava` says that `pr_FinalData` is `MAGIC_SECRET_PROCESSDATA`. -/
structure Process where
  processID : Nat
  parentID : Nat
  isJava : Bool
  state : TaskState
  deriving DecidableEq

abbrev Process.IsChild (me : Nat) (proc : Process) : Prop := proc.parentID = me ∧ proc.isJava = true

def findJavaChildKill (me : Nat) (proc : Process) : Bool :=
  proc.IsChild me ∧ (proc.state = .suspended ∨ proc.state ≠ .ready ∧ proc.state ≠ .removed)

def processScan (me : Nat) (table : List Process) : List Process :=
  table.filter fun proc => ¬ (proc.IsChild me ∧ proc.state = .suspended)

def Evolves (me : Nat) (table later : List Process) : Prop :=
  ∀ proc ∈ later, proc.IsChild me → ∃ old ∈ table, old.IsChild me ∧ old.processID = proc.processID

inductive Leaves (me : Nat) : List Process → List Process → Prop
  | done {table : List Process} : table.countP (findJavaChildKill me) = 0 →
      Leaves me table (processScan me table)
  | again {table later last : List Process} : table.countP (findJavaChildKill me) > 0 →
      Evolves me (processScan me table) later → Leaves me later last → Leaves me table last

theorem Leaves.ready_or_removed (leaves : Leaves me first last) (mem : proc ∈ last)
    (child : proc.IsChild me) : proc.state = .ready ∨ proc.state = .removed := by
  induction leaves with
  | done none =>
    have uncounted := List.countP_eq_zero.mp none proc (List.mem_of_mem_filter mem)
    simp only [findJavaChildKill, decide_eq_true_eq, not_or, not_and, not_not] at uncounted
    exact or_iff_not_imp_left.mpr (uncounted child).2
  | again _ _ _ ih => exact ih mem

/-- Unless a child is ready at the last scan, all children have ended. -/
theorem realAmigaExit_waits (leaves : Leaves me first last)
    (unready : ∀ proc ∈ last, proc.IsChild me → proc.state ≠ .ready) :
    ∀ proc ∈ last, proc.IsChild me → proc.state = .removed :=
  fun proc mem child => (leaves.ready_or_removed mem child).resolve_left (unready proc mem child)

/-- A waiting child, a suspended one and one that is ready are found by the first scan. The second
one still counts the child that was ready, and the third none. -/
theorem realAmigaExit_waits_ended :
    let first := [⟨2, 1, true, .wait⟩, ⟨3, 1, true, .suspended⟩, ⟨4, 1, true, .ready⟩]
    let last := [⟨4, 1, true, .removed⟩, ⟨5, 1, false, .ready⟩]
    first.countP (findJavaChildKill 1) = 2 ∧ Leaves 1 first last ∧
      ∀ proc ∈ last, proc.IsChild 1 → proc.state = .removed := by
  intro first last
  have third : Leaves 1 last last := @Leaves.done 1 last (by decide)
  have second : Leaves 1 [⟨2, 1, true, .removed⟩, ⟨4, 1, true, .wait⟩] last :=
    .again (by decide) (by unfold Evolves; decide) third
  have leaves : Leaves 1 first last := .again (by decide) (by unfold Evolves; decide) second
  exact ⟨by decide, leaves, realAmigaExit_waits leaves (by decide)⟩

/-- The loop does not wait for a child that is ready to run. -/
theorem realAmigaExit_leaves_ready :
    ∃ last, Leaves 1 [⟨2, 1, true, .ready⟩] last ∧ ⟨2, 1, true, .ready⟩ ∈ last :=
  ⟨_, .done (by decide), by decide⟩

end JamVM.Amiga
