import DiegOS.Lib.LinkedQueues

/-!
# Threads

The table of threads and the data of the scheduler: `threads.c` and the
static variables of `scheduler.c`.  A thread is named by its slot in the
table, which is its id while it lives.  `N` stands for
`DIEGOS_MAX_THREADS`.  What has no meaning in C (a null pointer followed, an
index out of bounds) has no result.
-/

namespace DiegOS.Kernel

open Lib

/-- The first thread, which never waits. -/
def THREAD_TID_IDLE : Nat := 0

/-- The thread that runs the timer callbacks. -/
def THREAD_TID_TMRS : Nat := 1

/-- No thread. -/
def THREAD_TID_INVALID : Nat := 255

/-- The characters kept of a thread's name. -/
def THREAD_NAME_MAX : Nat := 15

/-- The number of ready queues. -/
def THREAD_PRIORITIES : Nat := 4

/-- The priority of the timers thread. -/
def THREAD_PRIO_REALTIME : Nat := 0

/-- The priority of the idle thread. -/
def THREAD_PRIO_IDLE : Nat := 3

/-- Return codes. -/
inductive Code where
  | EOK | EINVAL | EPERM | EBUSY | ETIMEDOUT | EGENERIC | ENOSYS | EAGAIN
deriving DecidableEq, Repr

inductive ThreadState where
  | running | waiting | ready | dead
deriving DecidableEq, Repr

/-- The bits of `THREAD_MASK_WAIT`; all but the first are `THREAD_MASK_EVENTS`. -/
structure WaitFlags where
  timeout : Bool
  mutex : Bool
  event : Bool
  barrier : Bool
  completion : Bool
deriving DecidableEq, Repr

namespace WaitFlags

def none : WaitFlags := ⟨false, false, false, false, false⟩
def TIMEOUT : WaitFlags := { none with timeout := true }
def MUTEX : WaitFlags := { none with mutex := true }
def EVENT : WaitFlags := { none with event := true }
def BARRIER : WaitFlags := { none with barrier := true }
def COMPLETION : WaitFlags := { none with completion := true }

/-- The common bits of two sets of flags. -/
def inter (f g : WaitFlags) : WaitFlags :=
  ⟨f.timeout && g.timeout, f.mutex && g.mutex, f.event && g.event, f.barrier && g.barrier,
    f.completion && g.completion⟩

/-- The flags without the one of the time-out. -/
def events (f : WaitFlags) : WaitFlags := { f with timeout := false }

end WaitFlags

/-- A thread's record; `terminate` is `THREAD_FLAG_TERMINATE`. -/
structure Thread where
  name : List UInt8
  priority : Nat
  state : ThreadState
  terminate : Bool
  wait : WaitFlags
  tid : Nat
  delay : Nat
deriving DecidableEq, Repr

/-- A cleared record, as it is in an unused slot. -/
def Thread.unused : Thread := ⟨[], 0, .running, false, .none, THREAD_TID_INVALID, 0⟩

/-- The queues of the scheduler. -/
inductive Place where
  | ready (prio : Nat) | wait | delay | dead
deriving DecidableEq, Repr

/-- The thread table and the static data of the scheduler; `now` is what
`clock_get_milliseconds` reads and `period` what is asked of the clock. -/
structure Sched (N : Nat) where
  storage : Nat → Thread
  threadNum : Nat
  queues : LinkedQueues Place Nat
  running : Option Nat
  now : Nat
  newDelayWq : Nat
  newDelayDq : Nat
  period : Nat

namespace Sched

variable {N : Nat}

/-- The record of a live thread. -/
def getThread (s : Sched N) (tid : Nat) : Option Thread :=
  if tid < THREAD_TID_INVALID ∧ tid < N ∧ (s.storage tid).tid = tid then some (s.storage tid)
  else none

/-- The slot holds a live thread. -/
def Live (s : Sched N) (tid : Nat) : Prop :=
  tid < THREAD_TID_INVALID ∧ tid < N ∧ (s.storage tid).tid = tid

instance (s : Sched N) (tid : Nat) : Decidable (s.Live tid) := inferInstanceAs (Decidable (_ ∧ _))

/-- Overwrite the record in a slot. -/
def setThread (s : Sched N) (i : Nat) (t : Thread) : Sched N :=
  { s with storage := Function.update s.storage i t }

/-- Overwrite the queues. -/
abbrev setQueues (s : Sched N) (queues : LinkedQueues Place Nat) : Sched N :=
  { s with queues := queues }

/-- The id of the running thread. -/
def runningTid (s : Sched N) : Nat :=
  match s.running with
  | none => THREAD_TID_INVALID
  | some r => (s.storage r).tid

/-- One look at every slot for the first free one and for the name; none if the name is
taken. -/
def findSlot (storage : Nat → Thread) (name : List UInt8) : List Nat → Nat → Option Nat
  | [], newTid => some newTid
  | i :: l, newTid =>
    if newTid = THREAD_TID_INVALID ∧ (storage i).name = [] ∧
        (storage i).tid = THREAD_TID_INVALID then findSlot storage name l i
    else if (storage i).name.take THREAD_NAME_MAX = name.take THREAD_NAME_MAX then none
    else findSlot storage name l newTid

/-- Take a slot for a new thread; the id is `THREAD_TID_INVALID` on failure. -/
def initThread (s : Sched N) (name : List UInt8) (prio : Nat) : Option (Sched N × Nat) :=
  if s.threadNum = N ∨ ¬prio < THREAD_PRIORITIES then some (s, THREAD_TID_INVALID)
  else
    match findSlot s.storage name (List.range N) THREAD_TID_INVALID with
    | none => some (s, THREAD_TID_INVALID)
    | some newTid =>
      if newTid = THREAD_TID_INVALID then none
      else
        let t := { s.storage newTid with
          name := name.take THREAD_NAME_MAX, priority := prio, state := .ready, tid := newTid,
          delay := 0 }
        some ({ s.setThread newTid t with threadNum := s.threadNum + 1 }, newTid)

/-- Release the slot of a thread. -/
def doneThread (s : Sched N) (tid : Nat) : Sched N × Bool :=
  if s.Live tid then
    ({ s.setThread tid .unused with
        threadNum := s.threadNum - 1, queues := s.queues.setNext tid none }, true)
  else (s, false)

lemma getThread_eq_some {s : Sched N} {tid : Nat} {t : Thread} :
    s.getThread tid = some t ↔ s.Live tid ∧ s.storage tid = t := by
  unfold getThread Live
  split <;> simp_all

lemma Live.lt {s : Sched N} {tid : Nat} (h : s.Live tid) : tid < N := h.2.1

lemma Live.tid_eq {s : Sched N} {tid : Nat} (h : s.Live tid) : (s.storage tid).tid = tid :=
  h.2.2

@[simp] lemma setThread_storage (s : Sched N) (i : Nat) (t : Thread) :
    (s.setThread i t).storage = Function.update s.storage i t := rfl

@[simp] lemma setThread_queues (s : Sched N) (i : Nat) (t : Thread) :
    (s.setThread i t).queues = s.queues := rfl

@[simp] lemma setThread_running (s : Sched N) (i : Nat) (t : Thread) :
    (s.setThread i t).running = s.running := rfl

end Sched

end DiegOS.Kernel
