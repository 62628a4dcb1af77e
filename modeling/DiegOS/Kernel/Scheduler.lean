import DiegOS.Kernel.Threads
import Mathlib.Algebra.GroupWithZero.Nat

/-!
# The scheduler

`scheduler.c`: the moves of threads between the processor and the queues.  All
queues share one link in the thread's record.  What every entry point does to the
queues and to the records is stated here as the code does it; `Placement` says
what the queues hold.
-/

namespace DiegOS.Kernel

open Lib

/-- The longest period asked of the clock, in milliseconds. -/
def SCHED_DELAY_MAX : Nat := 10 * 1000

namespace Sched

variable {N : Nat}

def updateNewDelay (now delay nd : Nat) : Nat :=
  if now < delay ∧ delay - now < nd then delay - now else nd

/-! ## Entry points -/

/-- `scheduler_suspend_thread` -/
def suspendThread (s : Sched N) : Option (Sched N) :=
  match s.running with
  | none => none
  | some r =>
    (s.queues.enqueue (.ready (s.storage r).priority) r).map fun queues =>
      (s.setThread r { s.storage r with state := .ready }).setQueues queues

/-- `scheduler_resume_thread` -/
def resumeThread (s : Sched N) (flags : WaitFlags) (tid : Nat) : Sched N × Bool :=
  match s.getThread tid with
  | none => (s, false)
  | some t =>
    if t.state ≠ .waiting then (s, false)
    else if flags.inter t.wait = .none then (s, false)
    else (s.setThread tid { t with wait := .none, state := .ready, delay := 0 }, true)

/-- The loop of `scheduler_delay_thread`: the last thread of the delay queue that wakes
up no later than `time`, from `ptr` on.  A walk of more than `N` steps never
ends. -/
def delayAfter (s : Sched N) (time : Nat) : Nat → Nat → Option Nat
  | 0, _ => none
  | n + 1, ptr =>
    match s.queues.next ptr with
    | none => some ptr
    | some ptr2 => if time < (s.storage ptr2).delay then some ptr else delayAfter s time n ptr2

/-- Where `scheduler_delay_thread` puts a thread that wakes up at `time`: in front
or behind another one. -/
def delayPlace (s : Sched N) (time : Nat) : Option (Option Nat) :=
  match s.queues.head .delay with
  | none => some none
  | some ptr =>
    if time < (s.storage ptr).delay then some none else (s.delayAfter time N ptr).map some

/-- `scheduler_delay_thread` -/
def delayThread (s : Sched N) (msecs : Nat) : Option (Sched N × Bool) :=
  match s.running with
  | none => none
  | some r =>
    if (s.storage r).tid = THREAD_TID_IDLE ∨ (s.storage r).tid = THREAD_TID_TMRS then
      some (s, false)
    else
      let time := msecs + s.now
      match s.delayPlace time with
      | none => none
      | some after =>
        (s.queues.insert .delay r after).map fun queues =>
          let t := { s.storage r with wait := .TIMEOUT, state := .waiting, delay := time }
          ((s.setThread r t).setQueues queues, true)

/-- `scheduler_wait_thread` -/
def waitThread (s : Sched N) (flags : WaitFlags) (msecs : Nat) : Option (Sched N × Bool) :=
  match s.running with
  | none => none
  | some r =>
    if (s.storage r).tid = THREAD_TID_IDLE then some (s, false)
    else if flags.events = .none then some (s, false)
    else
      (s.queues.enqueue .wait r).map fun queues =>
        let t := { s.storage r with
          wait := { flags.events with timeout := decide (msecs ≠ 0) }
          state := .waiting
          delay := if msecs ≠ 0 then s.now + msecs else 0 }
        ((s.setThread r t).setQueues queues, true)

/-- `scheduler_add_thread` -/
def addThread (s : Sched N) (tid : Nat) : Option (Sched N × Bool) :=
  match s.getThread tid with
  | none => some (s, false)
  | some t =>
    if t.state ≠ .ready then some (s, false)
    else
      (s.queues.enqueue (.ready t.priority) tid).map fun queues =>
        (s.setQueues queues, true)

/-- `scheduler_ready_threads` -/
def readyThreads (s : Sched N) (prio : Nat) : Nat :=
  ((List.range prio).map fun i => s.queues.count (.ready i)).sum

/-! ## Update of the queues -/

/-- One look at the head of the wait queue, in `schedule_waiting`. -/
def visitWaiting (s : Sched N) : Option (Sched N) :=
  match s.queues.head .wait with
  | none => none
  | some ptr =>
    let t := s.storage ptr
    match t.state with
    | .waiting =>
      if t.terminate then
        match s.queues.dequeue .wait with
        | none => none
        | some (none, _) => some s
        | some (some temp, queues) =>
          (queues.enqueue .dead temp).map fun queues =>
            (s.setThread temp { s.storage temp with state := .dead }).setQueues queues
      else if t.wait.timeout then
        if t.delay ≤ s.now then
          match s.queues.dequeue .wait with
          | none => none
          | some (none, _) => some s
          | some (some temp, queues) =>
            let (s', ok) := (s.setQueues queues).resumeThread
              (s.storage temp).wait.events (s.storage temp).tid
            if ok then
              (s'.queues.enqueue (.ready t.priority) temp).map fun queues =>
                s'.setQueues queues
            else some s'
        else some { s with newDelayWq := updateNewDelay s.now t.delay s.newDelayWq }
      else some s
    | .ready =>
      match s.queues.dequeue .wait with
      | none => none
      | some (none, _) => some s
      | some (some temp, queues) =>
        (queues.enqueue (.ready t.priority) temp).map fun queues => s.setQueues queues
    | .running | .dead => some s

/-- The loop of `schedule_waiting`; the queue is rolled after every look. -/
def visitAllWaiting : Nat → Sched N → Option (Sched N)
  | 0, s => some s
  | n + 1, s =>
    match s.visitWaiting with
    | none => none
    | some s =>
      match s.queues.roll .wait with
      | none => none
      | some queues => visitAllWaiting n (s.setQueues queues)

def scheduleWaiting (s : Sched N) : Option (Sched N) :=
  visitAllWaiting (s.queues.count .wait) { s with newDelayWq := SCHED_DELAY_MAX }

/-- The loop of `schedule_delayed`, which ends when the counter is zero. -/
def visitDelayed : Nat → Sched N → Option (Sched N)
  | 0, s => some s
  | n + 1, s =>
    match s.queues.head .delay with
    | none => some s
    | some ptr =>
      if (s.storage ptr).delay ≤ s.now then
        match s.queues.dequeue .delay with
        | none => none
        | some (none, _) => some s
        | some (some temp, queues) =>
          let (s', ok) := (s.setQueues queues).resumeThread .TIMEOUT
            (s.storage temp).tid
          if ok then
            match s'.queues.enqueue (.ready (s'.storage temp).priority) temp with
            | none => none
            | some queues => visitDelayed n (s'.setQueues queues)
          else visitDelayed n s'
      else some s

def scheduleDelayed (s : Sched N) : Option (Sched N) :=
  (visitDelayed (s.queues.count .delay) { s with newDelayDq := SCHED_DELAY_MAX }).map fun s =>
    match s.queues.head .delay with
    | none => s
    | some ptr =>
      { s with newDelayDq := updateNewDelay s.now (s.storage ptr).delay s.newDelayDq }

/-- The part of `update_schedule` behind the calls of `resume_on_events` and the
like. -/
def updateQueues (s : Sched N) : Option (Sched N) :=
  (if s.queues.count .wait ≠ 0 then s.scheduleWaiting else some s).bind fun s =>
    (if s.queues.count .delay ≠ 0 then s.scheduleDelayed else some s).map fun s =>
      { s with period := if s.newDelayDq < s.newDelayWq then s.newDelayDq else s.newDelayWq }

/-! ## The next thread to run -/

/-- `new_runner`; the first argument counts the threads of the queue. -/
def newRunner (q : Nat) : Nat → Sched N → Option (Sched N × Bool)
  | 0, s => some (s, false)
  | n + 1, s =>
    match s.queues.dequeue (.ready q) with
    | none => none
    | some (none, _) => some (s, false)
    | some (some temp, queues) =>
      let t := s.storage temp
      if t.terminate then
        match queues.enqueue .dead temp with
        | none => none
        | some queues =>
          newRunner q n ((s.setThread temp { t with state := .dead }).setQueues queues)
      else
        some ({ s.setThread temp { t with state := .running } with
          queues := queues, running := some temp }, true)

/-- The loop of `schedule_thread` over the priorities. -/
def selectRunner : List Nat → Sched N → Option (Sched N)
  | [], s => some s
  | i :: l, s =>
    if s.queues.count (.ready i) ≠ 0 then
      match newRunner i (s.queues.count (.ready i)) s with
      | none => none
      | some (s', true) => some s'
      | some (s', false) => selectRunner l s'
    else selectRunner l s

def shouldDoHouseKeeping (s : Sched N) : Bool :=
  if s.queues.count .dead = 1 ∧ s.queues.head .dead = s.running then false
  else decide (s.queues.count .dead ≠ 0)

/-- The loop of `house_keeping`. -/
def houseKeeping : Nat → Sched N → Option (Sched N)
  | 0, s => some s
  | n + 1, s =>
    match s.queues.dequeue .dead with
    | none => none
    | some (none, _) => some s
    | some (some temp, queues) =>
      match s.running with
      | none => none
      | some r =>
        if (s.storage temp).tid ≠ (s.storage r).tid then
          houseKeeping n ((s.setQueues queues).doneThread
            (s.storage temp).tid).1
        else
          match queues.enqueue .dead temp with
          | none => none
          | some queues => houseKeeping n (s.setQueues queues)

/-- The part of `schedule_thread` behind `update_schedule`. -/
def pickThread (s : Sched N) : Option (Sched N) :=
  (selectRunner (List.range THREAD_PRIORITIES) s).bind fun s =>
    if s.shouldDoHouseKeeping then houseKeeping (s.queues.count .dead) s else some s

end Sched

end DiegOS.Kernel
