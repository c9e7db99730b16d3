import Mathlib.Algebra.Order.Ring.Int
import JamVM.Foundation.Transition
import Mathlib.Data.List.Basic

/-! # Thin and fat object locks

`objectLock`, `objectUnlock` and `objectWait` as steps of any number of threads
on any objects. A step is one read, write or compare-and-swap of a lockword or
of a monitor's `entering` field, one access to the `FLC` bit, one look-up in the
monitor cache, which runs under the cache's lock, or one operation on a
monitor's mutex with what the code does under it until the next such access.
-/

namespace JamVM.Lock.ThinLock

open Function

def countSize : Nat := 8

def maxCount : Nat := 2 ^ countSize - 1

def hashTabSize : Nat := 32

inductive LockWord (Thread : Type u)
  | unlocked
  | thin (owner : Thread) (count : Nat)
  | fat (mon : Nat)
  deriving DecidableEq

/-- Monitors are numbered in the order of their allocation. An `entering` field
of `none` is `UN_USED`; the mutex is locked while there is an owner. The `int`
field `count` is read as unsigned, which a comparison with 0 cannot tell. -/
structure Monitor (Thread : Type u) (Obj : Type v) where
  obj : Option Obj
  entering : Option Nat
  owner : Option Thread
  count : Nat
  inWait : Nat
  waitSet : List Thread

/-- Why a thread calls `findMonitor`: its thin lock has run out of recursion
counts, another thread has the lock, it has released a lock with the `FLC` bit
set, or it waits on an object it has locked that often. -/
inductive Purpose
  | overflow
  | contention
  | release
  | wait (count : Nat)
  deriving DecidableEq

inductive InflateStage
  | clearFlc
  | notifyAll
  | writeWord
  deriving DecidableEq

inductive Location (Obj : Type v)
  | idle
  -- The fast path of `objectLock`.
  | swapFree (obj : Obj)
  | readWord (obj : Obj)
  | bump (obj : Obj) (count : Nat)
  -- `findMonitor`.
  | readShape (obj : Obj) (purpose : Purpose)
  | lookUp (obj : Obj) (purpose : Purpose)
  -- The owner of a thin lock inflates it.
  | acquire (obj : Obj) (mon : Nat) (purpose : Purpose)
  | inflate (obj : Obj) (mon : Nat) (purpose : Purpose) (stage : InflateStage)
  -- A contender announces itself in `entering` and locks the monitor.
  | readEntering (obj : Obj) (mon : Nat)
  | enter (obj : Obj) (mon : Nat) (entering : Nat)
  | checkObj (obj : Obj) (mon : Nat)
  | readLeaving (obj : Obj) (mon : Nat)
  | leave (obj : Obj) (mon : Nat) (entering : Nat)
  | block (obj : Obj) (mon : Nat)
  | readEntered (obj : Obj) (mon : Nat)
  | entered (obj : Obj) (mon : Nat) (entering : Nat)
  -- The loop of a contender that has locked the monitor.
  | testWord (obj : Obj) (mon : Nat)
  | setFlc (obj : Obj) (mon : Nat)
  | swapWord (obj : Obj) (mon : Nat)
  | beginWait (obj : Obj) (mon : Nat)
  | blocked (obj : Obj) (mon : Nat) (oldCount : Nat)
  -- `objectUnlock` of a thin lock.
  | readOwn (obj : Obj)
  | writeUnlocked (obj : Obj)
  | drop (obj : Obj) (count : Nat)
  | testFlc (obj : Obj)
  | tryLock (obj : Obj) (mon : Nat)
  | retestFlc (obj : Obj) (mon : Nat)
  | recheckObj (obj : Obj) (mon : Nat)
  | notify (obj : Obj) (mon : Nat)
  | unlockNotifier (obj : Obj) (mon : Nat)
  -- `objectUnlock` of a fat lock.
  | inspect (obj : Obj) (mon : Nat)
  | inspectEntering (obj : Obj) (mon : Nat)
  | inspectWaits (obj : Obj) (mon : Nat)
  | deflate (obj : Obj) (mon : Nat)
  | retire (obj : Obj) (mon : Nat)
  | unlockDeflated (obj : Obj) (mon : Nat)
  | unlockFat (obj : Obj) (mon : Nat)
  -- `objectWait`.
  | readWaiting (obj : Obj)
  | sleep (obj : Obj) (mon : Nat)
  | waiting (obj : Obj) (mon : Nat) (oldCount : Nat)
  deriving DecidableEq

/-- `held` is history: the `objectLock` calls of a thread on an object that have
returned, less the `objectUnlock` calls that have released them. -/
structure State (Thread : Type u) (Obj : Type v) where
  lock : Obj → LockWord Thread
  flc : Obj → Bool
  monitor : Nat → Monitor Thread Obj
  cache : List Nat
  hashSize : Nat
  freeList : List Nat
  allocated : Nat
  location : Thread → Location Obj
  held : Thread → Obj → Nat

inductive Action (Thread : Type u) (Obj : Type v)
  | lock (self : Thread) (obj : Obj)
  | unlock (self : Thread) (obj : Obj)
  | wait (self : Thread) (obj : Obj)
  /-- The thread's next step. A look-up that scavenges pushes the unused
  monitors onto the free list as the cache's table has them; `order` lists them
  from the last one pushed. -/
  | proceed (self : Thread) (order : List Nat)
  /-- A thread in `monitorWait` goes on because of a time-out or an interrupt.
  If it has been notified meanwhile, the notification goes to the first waiter
  provided that one was waiting then. -/
  | giveUp (self : Thread) (forward : Bool)

section
variable {Thread : Type u} {Obj : Type v} [DecidableEq Thread] [DecidableEq Obj]

namespace State

/-! ## Writes -/

variable (state : State Thread Obj)

def move (self : Thread) (location : Location Obj) : State Thread Obj :=
  { state with location := update state.location self location }

def setLock (obj : Obj) (word : LockWord Thread) : State Thread Obj :=
  { state with lock := update state.lock obj word }

def writeFlc (obj : Obj) (bit : Bool) : State Thread Obj :=
  { state with flc := update state.flc obj bit }

section
variable (mon : Nat)

def setMonitor (monitor : Monitor Thread Obj) : State Thread Obj :=
  { state with monitor := update state.monitor mon monitor }

def setEntering (entering : Option Nat) : State Thread Obj :=
  state.setMonitor mon { state.monitor mon with entering := entering }

def setHeld (self : Thread) (obj : Obj) (count : Nat) : State Thread Obj :=
  { state with
    held := update state.held self (update (state.held self) obj count) }

def locked (self : Thread) (obj : Obj) : State Thread Obj :=
  (state.setHeld self obj (state.held self obj + 1)).move self .idle

def released (self : Thread) (obj : Obj) : State Thread Obj :=
  state.setHeld self obj (state.held self obj - 1)

/-! ## Monitors -/

def monitorLock (self : Thread) : Option (State Thread Obj) :=
  let monitor := state.monitor mon
  if monitor.owner = some self then
    some (state.setMonitor mon { monitor with count := (monitor.count + 1) % 2 ^ 32 })
  else if monitor.owner = none then
    some (state.setMonitor mon { monitor with owner := some self })
  else
    none

def monitorUnlock (self : Thread) : State Thread Obj :=
  let monitor := state.monitor mon
  if monitor.owner = some self then
    if monitor.count = 0 then
      state.setMonitor mon { monitor with owner := none }
    else
      state.setMonitor mon { monitor with count := monitor.count - 1 }
  else
    state

def startWait (self : Thread) : State Thread Obj :=
  let monitor := state.monitor mon
  state.setMonitor mon
    { monitor with
      owner := none
      count := 0
      inWait := monitor.inWait + 1
      waitSet := monitor.waitSet ++ [self] }

def endWait (self : Thread) (oldCount : Nat) (waitSet : List Thread) : State Thread Obj :=
  let monitor := state.monitor mon
  state.setMonitor mon
    { monitor with
      owner := some self
      count := oldCount
      inWait := monitor.inWait - 1
      waitSet := waitSet }

/-- The wait set after `waitSetSignalNext`; a notified thread is no longer on
it. -/
def signalNext : List Thread := (state.monitor mon).waitSet.tail

def setWaitSet (waitSet : List Thread) : State Thread Obj :=
  state.setMonitor mon { state.monitor mon with waitSet := waitSet }

end

/-! ## The monitor cache -/

def allocMonitor (obj : Obj) : State Thread Obj × Nat :=
  match state.freeList with
  | mon :: rest =>
    let monitor := state.monitor mon
    ({ state with freeList := rest }.setMonitor mon
      { monitor with obj := some obj, entering := some 0 }, mon)
  | [] =>
    let mon := state.allocated
    let monitor := state.monitor mon
    ({ state with allocated := mon + 1 }.setMonitor mon
      { monitor with obj := some obj, entering := some 0 }, mon)

/-- `SCAVENGE` on every entry of the cache, and the table's new size. -/
def scavenge (order : List Nat) : Option (State Thread Obj) :=
  let kept := state.cache.filter fun mon => (state.monitor mon).entering.isSome
  let unused := state.cache.filter fun mon => (state.monitor mon).entering.isNone
  if order.isPerm unused then
    some { state with
      cache := kept
      freeList := order ++ state.freeList
      hashSize :=
        if kept.length * 3 > state.hashSize * 2 then state.hashSize * 2
        else state.hashSize }
  else
    none

def entry (obj : Obj) : Option Nat :=
  state.cache.find? fun mon => (state.monitor mon).obj = some obj

def findHashEntry (obj : Obj) (order : List Nat) : Option (State Thread Obj × Nat) :=
  match state.entry obj with
  | some mon =>
    if (state.monitor mon).entering = none then
      some (state.setEntering mon (some 0), mon)
    else
      some (state, mon)
  | none =>
    let (state, mon) := state.allocMonitor obj
    let state := { state with cache := mon :: state.cache }
    if state.cache.length * 4 > state.hashSize * 3 then
      (state.scavenge order).map (·, mon)
    else
      some (state, mon)

end State

def Purpose.next (purpose : Purpose) (obj : Obj) (mon : Nat) : Location Obj :=
  match purpose with
  | .overflow => .acquire obj mon .overflow
  | .contention => .readEntering obj mon
  | .release => .tryLock obj mon
  | .wait count => .acquire obj mon (.wait count)

variable (state : State Thread Obj)

def State.inflated (self : Thread) (obj : Obj) (mon : Nat) : Purpose → State Thread Obj
  | .overflow =>
    (state.setMonitor mon
      { state.monitor mon with count := 2 ^ countSize }).locked self obj
  | .wait count =>
    (state.setMonitor mon
      { state.monitor mon with count := count }).move self (.sleep obj mon)
  | _ => state.move self (.testWord obj mon)

/-! ## Steps -/

def proceed (self : Thread) (order : List Nat) : Option (State Thread Obj) :=
  match state.location self with
  | .idle => none
  | .swapFree obj =>
    if state.lock obj = .unlocked then
      some ((state.setLock obj (.thin self 0)).locked self obj)
    else
      some (state.move self (.readWord obj))
  | .readWord obj =>
    match state.lock obj with
    | .thin owner count =>
      if owner = self then
        if count < maxCount then
          some (state.move self (.bump obj count))
        else
          some (state.move self (.readShape obj .overflow))
      else
        some (state.move self (.readShape obj .contention))
    | _ => some (state.move self (.readShape obj .contention))
  | .bump obj count => some ((state.setLock obj (.thin self (count + 1))).locked self obj)
  | .readShape obj purpose =>
    match state.lock obj with
    | .fat mon => some (state.move self (purpose.next obj mon))
    | _ => some (state.move self (.lookUp obj purpose))
  | .lookUp obj purpose =>
    (state.findHashEntry obj order).map fun (state, mon) => state.move self (purpose.next obj mon)
  | .acquire obj mon purpose =>
    (state.monitorLock mon self).map (·.move self (.inflate obj mon purpose .clearFlc))
  | .inflate obj mon purpose .clearFlc =>
    some ((state.writeFlc obj false).move self (.inflate obj mon purpose .notifyAll))
  | .inflate obj mon purpose .notifyAll =>
    if (state.monitor mon).owner = some self then
      some ((state.setWaitSet mon []).move self (.inflate obj mon purpose .writeWord))
    else
      some (state.move self (.inflate obj mon purpose .writeWord))
  | .inflate obj mon purpose .writeWord =>
    some ((state.setLock obj (.fat mon)).inflated self obj mon purpose)
  | .readEntering obj mon =>
    match (state.monitor mon).entering with
    | none => some (state.move self (.readShape obj .contention))
    | some entering => some (state.move self (.enter obj mon entering))
  | .enter obj mon entering =>
    if (state.monitor mon).entering = some entering then
      some ((state.setEntering mon (some (entering + 1))).move self (.checkObj obj mon))
    else
      some (state.move self (.readEntering obj mon))
  | .checkObj obj mon =>
    if (state.monitor mon).obj = some obj then
      some (state.move self (.block obj mon))
    else
      some (state.move self (.readLeaving obj mon))
  | .readLeaving obj mon =>
    some (state.move self (.leave obj mon ((state.monitor mon).entering.getD 0)))
  | .leave obj mon entering =>
    if (state.monitor mon).entering = some entering then
      some ((state.setEntering mon (some (entering - 1))).move self (.readShape obj .contention))
    else
      some (state.move self (.readLeaving obj mon))
  | .block obj mon => (state.monitorLock mon self).map (·.move self (.readEntered obj mon))
  | .readEntered obj mon =>
    some (state.move self (.entered obj mon ((state.monitor mon).entering.getD 0)))
  | .entered obj mon entering =>
    if (state.monitor mon).entering = some entering then
      some ((state.setEntering mon (some (entering - 1))).move self (.testWord obj mon))
    else
      some (state.move self (.readEntered obj mon))
  | .testWord obj mon =>
    match state.lock obj with
    | .fat _ => some (state.locked self obj)
    | _ => some (state.move self (.setFlc obj mon))
  | .setFlc obj mon => some ((state.writeFlc obj true).move self (.swapWord obj mon))
  | .swapWord obj mon =>
    if state.lock obj = .unlocked then
      some ((state.setLock obj (.thin self 0)).move self (.inflate obj mon .contention .clearFlc))
    else
      some (state.move self (.beginWait obj mon))
  | .beginWait obj mon =>
    if (state.monitor mon).owner = some self then
      some ((state.startWait mon self).move self (.blocked obj mon (state.monitor mon).count))
    else
      some (state.move self (.testWord obj mon))
  | .blocked obj mon oldCount =>
    if (state.monitor mon).owner = none ∧ self ∉ (state.monitor mon).waitSet then
      some ((state.endWait mon self oldCount (state.monitor mon).waitSet).move self
        (.testWord obj mon))
    else
      none
  | .readOwn obj =>
    match state.lock obj with
    | .thin owner count =>
      if owner = self then
        if count = 0 then
          some (state.move self (.writeUnlocked obj))
        else
          some (state.move self (.drop obj count))
      else
        some (state.move self .idle)
    | .fat mon => some (state.move self (.inspect obj mon))
    | .unlocked => some (state.move self .idle)
  | .writeUnlocked obj =>
    some (((state.setLock obj .unlocked).released self obj).move self (.testFlc obj))
  | .drop obj count =>
    some (((state.setLock obj (.thin self (count - 1))).released self obj).move self .idle)
  | .testFlc obj =>
    if state.flc obj then
      some (state.move self (.readShape obj .release))
    else
      some (state.move self .idle)
  | .tryLock obj mon =>
    match state.monitorLock mon self with
    | some state => some (state.move self (.retestFlc obj mon))
    | none => some (state.move self (.testFlc obj))
  | .retestFlc obj mon =>
    if state.flc obj then
      some (state.move self (.recheckObj obj mon))
    else
      some (state.move self (.unlockNotifier obj mon))
  | .recheckObj obj mon =>
    if (state.monitor mon).obj = some obj then
      some (state.move self (.notify obj mon))
    else
      some (state.move self (.unlockNotifier obj mon))
  | .notify obj mon =>
    if (state.monitor mon).owner = some self then
      some ((state.setWaitSet mon (state.signalNext mon)).move self (.unlockNotifier obj mon))
    else
      some (state.move self (.unlockNotifier obj mon))
  | .unlockNotifier _ mon => some ((state.monitorUnlock mon self).move self .idle)
  | .inspect obj mon =>
    if (state.monitor mon).count = 0 then
      some (state.move self (.inspectEntering obj mon))
    else
      some (state.move self (.unlockFat obj mon))
  | .inspectEntering obj mon =>
    if (state.monitor mon).entering = some 0 then
      some (state.move self (.inspectWaits obj mon))
    else
      some (state.move self (.unlockFat obj mon))
  | .inspectWaits obj mon =>
    if (state.monitor mon).inWait = 0 then
      some (state.move self (.deflate obj mon))
    else
      some (state.move self (.unlockFat obj mon))
  | .deflate obj mon =>
    some (((state.setLock obj .unlocked).released self obj).move self (.retire obj mon))
  | .retire obj mon =>
    if (state.monitor mon).entering = some 0 then
      some ((state.setEntering mon none).move self (.unlockDeflated obj mon))
    else
      some (state.move self (.unlockDeflated obj mon))
  | .unlockDeflated _ mon => some ((state.monitorUnlock mon self).move self .idle)
  | .unlockFat obj mon => some (((state.monitorUnlock mon self).released self obj).move self .idle)
  | .readWaiting obj =>
    match state.lock obj with
    | .thin owner count =>
      if owner = self then
        some (state.move self (.readShape obj (.wait count)))
      else
        some (state.move self .idle)
    | .fat mon => some (state.move self (.sleep obj mon))
    | .unlocked => some (state.move self .idle)
  | .sleep obj mon =>
    if (state.monitor mon).owner = some self then
      some ((state.startWait mon self).move self (.waiting obj mon (state.monitor mon).count))
    else
      some (state.move self .idle)
  | .waiting _ mon oldCount =>
    if (state.monitor mon).owner = none ∧ self ∉ (state.monitor mon).waitSet then
      some ((state.endWait mon self oldCount (state.monitor mon).waitSet).move self .idle)
    else
      none

def leftWaitSet (waitSet : List Thread) (self : Thread) (forward : Bool) : List Thread :=
  if self ∈ waitSet then waitSet.erase self
  else if forward then waitSet.tail
  else waitSet

def giveUp (self : Thread) (forward : Bool) : Option (State Thread Obj) :=
  match state.location self with
  | .blocked obj mon oldCount =>
    let monitor := state.monitor mon
    if monitor.owner = none then
      some ((state.endWait mon self oldCount
        (leftWaitSet monitor.waitSet self forward)).move self (.testWord obj mon))
    else
      none
  | .sleep _ _ => some (state.move self .idle)
  | .waiting _ mon oldCount =>
    let monitor := state.monitor mon
    if monitor.owner = none then
      some ((state.endWait mon self oldCount
        (leftWaitSet monitor.waitSet self forward)).move self .idle)
    else
      none
  | _ => none

def call (self : Thread) (location : Location Obj) : Option (State Thread Obj) :=
  if state.location self = .idle then some (state.move self location) else none

def step : Action Thread Obj → Option (State Thread Obj)
  | .lock self obj => call state self (.swapFree obj)
  | .unlock self obj => call state self (.readOwn obj)
  | .wait self obj => call state self (.readWaiting obj)
  | .proceed self order => proceed state self order
  | .giveUp self forward => giveUp state self forward

end

def start (Thread : Type u) (Obj : Type v) : State Thread Obj where
  lock _ := .unlocked
  flc _ := false
  monitor _ :=
    { obj := none
      entering := none
      owner := none
      count := 0
      inWait := 0
      waitSet := [] }
  cache := []
  hashSize := hashTabSize
  freeList := []
  allocated := 0
  location _ := .idle
  held _ _ := 0

def system (Thread : Type u) (Obj : Type v) [DecidableEq Thread] [DecidableEq Obj] :
    TransitionSystem (State Thread Obj) (Action Thread Obj) where
  initial state := state = start Thread Obj
  step := step

end JamVM.Lock.ThinLock
