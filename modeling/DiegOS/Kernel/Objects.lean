import DiegOS.Kernel.Scheduler
import DiegOS.Kernel.Mutex

/-!
# What threads wait for

The state of the kernel, and the event queues, barriers, wait queues and poll tables of
`events.c`, `barriers.c`, `io_waits.c` and `poll.c`.  An object is
named by its address; an address that was freed and not given out again has no meaning.
A thread that blocks in a call leaves the call here and goes on with it when it runs
next.
-/

namespace DiegOS.Kernel

open Lib

/-- The most descriptors of one `poll`. -/
def OPEN_MAX : Nat := 64

/-- An event queue: the events in it and the thread that watches it. -/
structure EvQueue where
  msgs : List Nat
  threadid : Nat
deriving DecidableEq, Repr

/-- A barrier and the threads that wait for it. -/
structure Barrier where
  ids : Nat → Bool
  isOpen : Bool
  autoclose : Bool

/-- An item in a wait queue belongs to a thread or to a poll table. -/
inductive WaitItem where
  | owner (tid : Nat) | poll (table : Nat)
deriving DecidableEq, Repr

/-- The byte read as the thread id of an item; in an item of a poll table this is the low
byte of the table's address. -/
def WaitItem.tid : WaitItem → Nat
  | .owner tid => tid
  | .poll table => table % 256

/-- A poll table: its items with their wait queues, and the thread to wake up. -/
structure PollTable where
  items : List (Nat × Nat)
  signalled : Bool
  tid : Nat
deriving DecidableEq, Repr

/-- The call that a thread is blocked in. -/
inductive Call where
  | none
  | lock (m msecs : Nat)
  | events (q msecs : Nat)
  | barrier (b : Nat)
  | io (w msecs : Nat)
  | poll (table : Nat)
deriving DecidableEq, Repr

/-- The whole state; the lists hold the live objects in the order of the code's lists. -/
structure System (N : Nat) where
  sched : Sched N
  mutexes : List Nat
  mutex : Nat → Mutex
  evQueues : List Nat
  evQueue : Nat → EvQueue
  evIds : Nat → Bool
  barriers : List Nat
  barrier : Nat → Barrier
  waitQueues : List Nat
  waitQueue : Nat → List Nat
  item : Nat → Option WaitItem
  ioIds : Nat → Bool
  pollTables : List Nat
  pollTable : Nat → PollTable
  pollIds : Nat → Bool
  call : Nat → Call

/-- What a call gives back at once; `schedules` if it ends in `schedule_thread`. -/
inductive Outcome where
  | done
  | returns (code : Code)
  | gets (event : Option Nat)
  | creates (tid : Option Nat)
  | counts (n : Nat)
  | schedules
deriving DecidableEq, Repr

/-- What the driver of a polled descriptor does: the items that it adds with their wait
queues, and if there are events; none if it fails. -/
structure PollAnswer where
  waits : List (Nat × Nat)
  events : Option Bool
deriving DecidableEq, Repr

/-- The loop of `bitmap_for_each_set` over the threads to resume. -/
def resumeSet {N : Nat} (flags : WaitFlags) :
    List Nat → Sched N → (Nat → Bool) → Sched N × (Nat → Bool)
  | [], s, ids => (s, ids)
  | t :: l, s, ids =>
    if ids t then resumeSet flags l (s.resumeThread flags t).1 (Function.update ids t false)
    else resumeSet flags l s ids

namespace System

variable {N : Nat}

/-- Overwrite the data of the scheduler. -/
abbrev setSched (k : System N) (s : Sched N) : System N := { k with sched := s }

/-- `scheduler_wait_thread` in the call `c` of the running thread. -/
def waitThread (k : System N) (flags : WaitFlags) (msecs : Nat) (c : Call) :
    Option (System N × Bool) :=
  match k.sched.running with
  | none => none
  | some r =>
    (k.sched.waitThread flags msecs).map fun (s, ok) =>
      ({ k with sched := s, call := if ok then Function.update k.call r c else k.call }, ok)

/-! ## Event queues -/

def eventInitQueue (k : System N) (q : Nat) : System N :=
  { k with
    evQueues := q :: k.evQueues
    evQueue := Function.update k.evQueue q ⟨[], THREAD_TID_INVALID⟩ }

def eventDoneQueue (k : System N) (q : Nat) : Option (System N × Outcome) :=
  if q ∈ k.evQueues then some ({ k with evQueues := k.evQueues.erase q }, .returns .EOK)
  else none

def eventWatchQueue (k : System N) (q : Nat) : Option (System N × Outcome) :=
  if q ∈ k.evQueues then
    if (k.evQueue q).threadid ≠ THREAD_TID_INVALID then some (k, .returns .EINVAL)
    else
      let e := { k.evQueue q with threadid := k.sched.runningTid }
      some ({ k with evQueue := Function.update k.evQueue q e }, .returns .EOK)
  else none

def eventPut (k : System N) (q event : Nat) : Option (System N × Outcome) :=
  if q ∈ k.evQueues then
    let e := { k.evQueue q with msgs := (k.evQueue q).msgs ++ [event] }
    some ({ k with evQueue := Function.update k.evQueue q e }, .returns .EOK)
  else none

def eventGet (k : System N) (q : Nat) : Option (System N × Outcome) :=
  if q ∈ k.evQueues then
    let e := { k.evQueue q with msgs := (k.evQueue q).msgs.tail }
    some ({ k with evQueue := Function.update k.evQueue q e }, .gets (k.evQueue q).msgs.head?)
  else none

/-- `wait_for_events_timed` up to `schedule_thread` -/
def waitForEventsTimed (k : System N) (q msecs : Nat) : Option (System N × Outcome) :=
  if q ∈ k.evQueues then
    match k.sched.running with
    | none => none
    | some r =>
      let tid := (k.sched.storage r).tid
      if (k.evQueue q).threadid ≠ tid then some (k, .returns .EPERM)
      else if (k.evQueue q).msgs ≠ [] then some (k, .returns .EOK)
      else
        (k.waitThread .EVENT msecs (.events q msecs)).map fun (k', ok) =>
          if ok then ({ k' with evIds := Function.update k'.evIds tid true }, .schedules)
          else (k', .returns .EPERM)
  else none

/-- `resume_on_events`, for the queues of the list. -/
def resumeOnEvents : List Nat → System N → System N
  | [], k => k
  | q :: l, k =>
    let tid := (k.evQueue q).threadid
    if tid ≠ THREAD_TID_INVALID ∧ k.evIds tid = true ∧ (k.evQueue q).msgs ≠ [] then
      resumeOnEvents l { k with
        sched := (k.sched.resumeThread .EVENT tid).1
        evIds := Function.update k.evIds tid false }
    else resumeOnEvents l k

/-- `cancel_wait_for_events`; none if it fails. -/
def cancelWaitForEvents (k : System N) (tid : Nat) : Option (System N) :=
  if k.sched.Live tid ∧ (k.sched.storage tid).wait.event = true then
    (k.evQueues.find? fun q => (k.evQueue q).threadid = tid).map fun q =>
      let e := { k.evQueue q with threadid := THREAD_TID_INVALID }
      { k with evQueue := Function.update k.evQueue q e }
  else none

/-! ## Barriers -/

def barrierCreate (k : System N) (b : Nat) (autoclose : Bool) : System N :=
  { k with
    barriers := k.barriers ++ [b]
    barrier := Function.update k.barrier b ⟨fun _ => false, false, autoclose⟩ }

/-- `resume_on_barriers`, for the barriers of the list. -/
def resumeOnBarriers : List Nat → System N → System N
  | [], k => k
  | b :: l, k =>
    let bar := k.barrier b
    if bar.isOpen then
      let (s, ids) := resumeSet .BARRIER (List.range N) k.sched bar.ids
      resumeOnBarriers l { k with
        sched := s
        barrier := Function.update k.barrier b ⟨ids, !bar.autoclose, bar.autoclose⟩ }
    else resumeOnBarriers l k

def barrierDone (k : System N) (b : Nat) : Option (System N × Outcome) :=
  if b ∈ k.barriers then
    let k' := resumeOnBarriers k.barriers k
    some ({ k' with barriers := k'.barriers.erase b }, .returns .EOK)
  else none

/-- Set or clear the flag of an open barrier. -/
def barrierSet (k : System N) (b : Nat) (isOpen : Bool) : Option (System N × Outcome) :=
  if b ∈ k.barriers then
    let bar := { k.barrier b with isOpen := isOpen }
    some ({ k with barrier := Function.update k.barrier b bar }, .returns .EOK)
  else none

def barrierOpen (k : System N) (b : Nat) : Option (System N × Outcome) := k.barrierSet b true

def barrierClose (k : System N) (b : Nat) : Option (System N × Outcome) := k.barrierSet b false

/-- `wait_for_barrier` up to `schedule_thread` -/
def waitForBarrier (k : System N) (b : Nat) : Option (System N × Outcome) :=
  if b ∈ k.barriers then
    if (k.barrier b).isOpen then some (k, .returns .EOK)
    else
      let bar := { k.barrier b with
        ids := Function.update (k.barrier b).ids k.sched.runningTid true }
      let k₀ := { k with barrier := Function.update k.barrier b bar }
      (k₀.waitThread .BARRIER 0 (.barrier b)).map fun (k', ok) =>
        if ok then (k', .schedules) else (k', .returns .EPERM)
  else none

/-- `cancel_wait_for_barrier`; none if it fails. -/
def cancelWaitForBarrier (k : System N) (tid : Nat) : Option (System N) :=
  if k.sched.Live tid ∧ (k.sched.storage tid).wait.barrier = true then
    (k.barriers.find? fun b => (k.barrier b).ids tid).map fun b =>
      let bar := { k.barrier b with ids := Function.update (k.barrier b).ids tid false }
      { k with barrier := Function.update k.barrier b bar }
  else none

/-! ## Wait queues -/

/-- Put an item into a wait queue. -/
def addItem (k : System N) (w a : Nat) (i : WaitItem) : System N :=
  { k with
    item := Function.update k.item a (some i)
    waitQueue := Function.update k.waitQueue w (k.waitQueue w ++ [a]) }

/-- Take an item out of a wait queue and free it. -/
def removeItem (k : System N) (w a : Nat) : System N :=
  { k with
    item := Function.update k.item a none
    waitQueue := Function.update k.waitQueue w ((k.waitQueue w).erase a) }

def threadIoWaitInit (k : System N) (w : Nat) : System N :=
  { k with waitQueues := k.waitQueues ++ [w] }

/-- `thread_io_wait_internal` up to `schedule_thread`, with an item at `a` -/
def threadIoWait (k : System N) (w a msecs : Nat) : Option (System N × Outcome) :=
  ((k.addItem w a (.owner k.sched.runningTid)).waitThread .COMPLETION msecs
    (.io w msecs)).map fun (k', ok) =>
      if ok then (k', .schedules) else (k'.removeItem w a, .returns .EPERM)

def pollWakeup (k : System N) (table : Nat) : System N :=
  let pt := k.pollTable table
  if pt.signalled then k
  else
    { k with
      pollTable := Function.update k.pollTable table { pt with signalled := true }
      pollIds := Function.update k.pollIds pt.tid true }

/-- The loop of `thread_io_resume`. -/
def resumeItems (w : Nat) : List Nat → System N → Option (System N)
  | [], k => some k
  | a :: l, k =>
    match k.item a with
    | none => none
    | some (.poll table) => resumeItems w l ((k.pollWakeup table).removeItem w a)
    | some (.owner tid) =>
      resumeItems w l ({ k with ioIds := Function.update k.ioIds tid true }.removeItem w a)

def threadIoResume (k : System N) (w : Nat) : Option (System N × Outcome) :=
  (resumeItems w (k.waitQueue w) k).map fun k => (k, .returns .EOK)

def resumeOnIoWait (k : System N) : System N :=
  let (s, ids) := resumeSet .COMPLETION (List.range N) k.sched k.ioIds
  { k with sched := s, ioIds := ids }

/-- The first item of a wait queue that seems to belong to a thread. -/
def findItem (k : System N) (w tid : Nat) : Option Nat :=
  (k.waitQueue w).find? fun a => (k.item a).map WaitItem.tid = some tid

/-- The loop of `cancel_io_waits`. -/
def cancelItems (tid : Nat) : List Nat → System N → System N
  | [], k => k
  | w :: l, k =>
    match k.findItem w tid with
    | none => cancelItems tid l k
    | some a => cancelItems tid l (k.removeItem w a)

def cancelIoWaits (k : System N) (tid : Nat) : System N :=
  let k' := cancelItems tid k.waitQueues k
  { k' with ioIds := Function.update k'.ioIds tid false }

/-! ## Poll tables -/

/-- `poll_wait` for the items that one driver adds. -/
def pollWait (table : Nat) : List (Nat × Nat) → System N → System N
  | [], k => k
  | (a, w) :: l, k =>
    let pt := { k.pollTable table with items := (k.pollTable table).items ++ [(a, w)] }
    pollWait table l
      { k.addItem w a (.poll table) with pollTable := Function.update k.pollTable table pt }

/-- The loop of `cleanup`: an item that `thread_io_resume` took out is gone, unless
the queue or the item is in use again. -/
def cleanupItems : List (Nat × Nat) → System N → Option (System N)
  | [], k => some k
  | (a, w) :: l, k =>
    if a ∈ k.waitQueue w then cleanupItems l (k.removeItem w a)
    else if k.waitQueue w = [] ∧ k.item a = none then cleanupItems l k
    else none

def cleanup (k : System N) (table : Nat) : Option (System N) :=
  (cleanupItems (k.pollTable table).items k).map fun k =>
    { k with pollTables := k.pollTables.erase table }

/-- The first loop of `poll`; false if a driver fails. -/
def pollFirst (table : Nat) : List (Option PollAnswer) → System N → System N × Bool
  | [], k => (k, true)
  | none :: l, k => pollFirst table l k
  | some answer :: l, k =>
    let k' := pollWait table answer.waits k
    match answer.events with
    | none => (k', false)
    | some false => pollFirst table l k'
    | some true =>
      let pt := { k'.pollTable table with signalled := true }
      pollFirst table l { k' with pollTable := Function.update k'.pollTable table pt }

/-- The second loop of `poll`; none if a driver fails. -/
def pollSecond : List (Option (Option Bool)) → Option Nat
  | [] => some 0
  | none :: l => pollSecond l
  | some none :: _ => none
  | some (some b) :: l => (pollSecond l).map fun n => if b then n + 1 else n

/-- The end of `poll`. -/
def pollEnd (k : System N) (table : Nat) (again : List (Option (Option Bool))) :
    Option (System N × Outcome) :=
  (k.cleanup table).map fun k =>
    match pollSecond again with
    | none => (k, .returns .ENOSYS)
    | some 0 => (k, .returns .ETIMEDOUT)
    | some n => (k, .counts n)

/-- `poll` with a new table, up to `schedule_thread` or to its end. -/
def poll (k : System N) (table : Nat) (fds : List (Option PollAnswer)) (timeout : Int)
    (again : List (Option (Option Bool))) : Option (System N × Outcome) :=
  if fds = [] ∨ OPEN_MAX < fds.length then some (k, .returns .EINVAL)
  else
    let k₀ := { k with
      pollTables := table :: k.pollTables
      pollTable := Function.update k.pollTable table ⟨[], false, k.sched.runningTid⟩ }
    match pollFirst table fds k₀ with
    | (k₁, false) => (k₁.cleanup table).map fun k => (k, .returns .ENOSYS)
    | (k₁, true) =>
      if (k₁.pollTable table).signalled = false ∧ timeout ≠ 0 then
        (k₁.waitThread .COMPLETION (if timeout < 0 then 0 else timeout.toNat)
          (.poll table)).bind fun (k', ok) =>
            if ok then some (k', .schedules)
            else (k'.cleanup table).map fun k => (k, .returns .EPERM)
      else k₁.pollEnd table again

def resumeOnPoll (k : System N) : System N :=
  let (s, ids) := resumeSet .COMPLETION (List.range N) k.sched k.pollIds
  { k with sched := s, pollIds := ids }

end System

end DiegOS.Kernel
