import DiegOS.Kernel.Objects

/-!
# The kernel calls

`kernel.c`, and the parts of `scheduler.c` that reach the other tables.  An
action is one call of the running thread, one interrupt, or what a thread does when it
goes on after a call that blocked it.  A call that ends in `schedule_thread` has
blocked its thread or put it behind the others.  `kernel_panic` has no result.
-/

namespace DiegOS.Kernel

open Lib

namespace System

variable {N : Nat}

/-- What `get_thread` finds. -/
def knows (k : System N) (tid : Nat) : Bool := decide (k.sched.Live tid)

/-! ## The scheduler -/

/-- The first half of `update_schedule`. -/
def resumeAll (k : System N) : System N :=
  let k := resumeOnEvents k.evQueues k
  let k := resumeOnBarriers k.barriers k
  k.resumeOnIoWait.resumeOnPoll

def updateSchedule (k : System N) : Option (System N) :=
  let k := k.resumeAll
  k.sched.updateQueues.map k.setSched

def scheduleThread (k : System N) : Option (System N) :=
  k.updateSchedule.bind fun k => k.sched.pickThread.map k.setSched

/-- Cancel what the wait flags of a thread name; none if this fails.  Combined flags name
nothing. -/
def cancelWait (k : System N) (tid : Nat) : Option (System N) :=
  let wait := (k.sched.storage tid).wait
  if wait = .EVENT then k.cancelWaitForEvents tid
  else if wait = .BARRIER then k.cancelWaitForBarrier tid
  else if wait = .COMPLETION then some (k.cancelIoWaits tid)
  else if wait = .MUTEX then
    match cancelWaitOnMutex k.knows tid k.mutex k.mutexes with
    | some (mutex, .EOK) =>
      (k.sched.queues.enqueue .dead tid).map fun queues =>
        let t := { k.sched.storage tid with state := .dead }
        { k with mutex := mutex, sched := (k.sched.setThread tid t).setQueues queues }
    | _ => none
  else some k

/-- `scheduler_remove_thread`; none if it fails. -/
def removeThread (k : System N) (tid : Nat) : Option (System N) :=
  if ¬k.sched.Live tid ∨ tid = THREAD_TID_IDLE ∨ tid = THREAD_TID_TMRS then none
  else
    match (k.sched.storage tid).state with
    | .running =>
      (k.sched.queues.enqueue .dead tid).map fun queues =>
        let t := { k.sched.storage tid with state := .dead }
        k.setSched ((k.sched.setThread tid t).setQueues queues)
    | .waiting =>
      (k.cancelWait tid).map fun k =>
        let t := { k.sched.storage tid with wait := .none, terminate := true }
        k.setSched (k.sched.setThread tid t)
    | .ready =>
      let t := { k.sched.storage tid with terminate := true }
      some (k.setSched (k.sched.setThread tid t))
    | .dead => none

/-! ## Threads -/

/-- `thread_suspend` up to `schedule_thread` -/
def threadSuspend (k : System N) : Option (System N × Outcome) :=
  k.sched.suspendThread.map fun s => (k.setSched s, .schedules)

/-- `thread_may_suspend` up to `schedule_thread` -/
def threadMaySuspend (k : System N) : Option (System N × Outcome) :=
  match k.sched.running with
  | none => none
  | some r =>
    k.updateSchedule.bind fun k =>
      if k.sched.readyThreads (k.sched.storage r).priority = 0 then some (k, .done)
      else k.threadSuspend

/-- `thread_delay` up to `schedule_thread` -/
def threadDelay (k : System N) (msecs : Nat) : Option (System N × Outcome) :=
  if msecs = 0 then some (k, .done)
  else
    match k.sched.delayThread msecs with
    | some (s, true) => some (k.setSched s, .schedules)
    | _ => none

/-- `thread_terminate` up to `schedule_thread` -/
def threadTerminate (k : System N) : Option (System N × Outcome) :=
  match k.sched.running with
  | none => none
  | some r => (k.removeThread (k.sched.storage r).tid).map fun k => (k, .schedules)

def threadCreate (k : System N) (name : List UInt8) (prio : Nat) :
    Option (System N × Outcome) :=
  match k.sched.initThread name prio with
  | none => none
  | some (s, tid) =>
    if tid = THREAD_TID_INVALID then some (k.setSched s, .creates none)
    else
      match s.addThread tid with
      | some (s, true) =>
        some ({ k with sched := s, call := Function.update k.call tid .none },
          .creates (some tid))
      | _ => none

def threadKill (k : System N) (tid : Nat) : Option (System N × Outcome) :=
  if tid = k.sched.runningTid then some (k, .done)
  else (k.removeThread tid).map fun k => (k, .done)

/-! ## Mutexes -/

def threadCreateMutex (k : System N) (m : Nat) : System N :=
  { k with mutexes := m :: k.mutexes, mutex := Function.update k.mutex m (.init N) }

/-- `thread_lock_mutex_timed` up to `schedule_thread` -/
def threadLockMutexTimed (k : System N) (m msecs : Nat) : Option (System N × Outcome) :=
  if m ∈ k.mutexes then
    match k.sched.running with
    | none => none
    | some r =>
      let isLocked := (k.mutex m).isLocked
      let (m', ok) := (k.mutex m).lockMutex k.knows (k.sched.storage r).tid
      let k' := { k with mutex := Function.update k.mutex m m' }
      if ok ∧ isLocked then
        (k'.waitThread .MUTEX msecs (.lock m msecs)).map fun (k', _) => (k', .schedules)
      else some (k', .returns .EBUSY)
  else none

def threadUnlockMutex (k : System N) (m : Nat) : Option (System N × Outcome) :=
  if m ∈ k.mutexes then
    ((k.mutex m).unlockMutex k.knows k.sched.runningTid).map fun (m', ok) =>
      let k' := { k with mutex := Function.update k.mutex m m' }
      if ok then
        (k'.setSched (k'.sched.resumeThread .MUTEX m'.lockerTid).1, .returns .EOK)
      else (k', .returns .EPERM)
  else none

def threadDestroyMutex (k : System N) (m : Nat) : Option (System N × Outcome) :=
  if m ∈ k.mutexes then
    if (k.mutex m).isLocked then some (k, .returns .EBUSY)
    else if (k.mutex m).threadIds.isEmpty = false then some (k, .returns .EINVAL)
    else some ({ k with mutexes := k.mutexes.erase m }, .returns .EOK)
  else none

/-! ## The end of a call -/

/-- What a thread does when it runs again after a call that blocked it. -/
def finish (k : System N) (again : List (Option (Option Bool))) :
    Option (System N × Outcome) :=
  match k.sched.running with
  | none => none
  | some r =>
    let k' := { k with call := Function.update k.call r .none }
    match k.call r with
    | .none => none
    | .lock m msecs =>
      if msecs = 0 then some (k', .returns .EOK)
      else if m ∈ k.mutexes then
        some (k', .returns
          (if k.sched.runningTid = (k.mutex m).lockerTid then .EOK else .ETIMEDOUT))
      else none
    | .events q _ =>
      if q ∈ k.evQueues then
        some (k', .returns (if (k.evQueue q).msgs ≠ [] then .EOK else .ETIMEDOUT))
      else none
    | .barrier _ => some (k', .returns .EOK)
    | .io w msecs =>
      some (k', .returns
        (if msecs ≠ 0 ∧ (k.findItem w k.sched.runningTid).isSome then .ETIMEDOUT else .EOK))
    | .poll table => k'.pollEnd table again

end System

/-! ## Actions -/

/-- The calls of threads and the interrupts, with the addresses of new objects. -/
inductive Action where
  | kernelRun
  | threadCreate (name : List UInt8) (prio : Nat)
  | threadSuspend
  | threadMaySuspend
  | threadDelay (msecs : Nat)
  | threadTerminate
  | threadKill (tid : Nat)
  | createMutex (m : Nat)
  | lockMutex (m msecs : Nat)
  | unlockMutex (m : Nat)
  | destroyMutex (m : Nat)
  | eventInitQueue (q : Nat)
  | eventDoneQueue (q : Nat)
  | eventWatchQueue (q : Nat)
  | eventPut (q event : Nat)
  | eventGet (q : Nat)
  | waitForEvents (q msecs : Nat)
  | barrierCreate (b : Nat) (autoclose : Bool)
  | barrierDone (b : Nat)
  | barrierOpen (b : Nat)
  | barrierClose (b : Nat)
  | waitForBarrier (b : Nat)
  | ioWaitInit (w : Nat)
  | ioWait (w a msecs : Nat)
  | ioResume (w : Nat)
  | poll (table : Nat) (fds : List (Option PollAnswer)) (timeout : Int)
      (again : List (Option (Option Bool)))
  | finish (again : List (Option (Option Bool)))
  | tick (now : Nat)
deriving DecidableEq

namespace System

variable {N : Nat}

/-- What an action does up to `schedule_thread`. -/
def act (k : System N) : Action → Option (System N × Outcome)
  | .kernelRun => some (k, .schedules)
  | .threadCreate name prio => k.threadCreate name prio
  | .threadSuspend => k.threadSuspend
  | .threadMaySuspend => k.threadMaySuspend
  | .threadDelay msecs => k.threadDelay msecs
  | .threadTerminate => k.threadTerminate
  | .threadKill tid => k.threadKill tid
  | .createMutex m => some (k.threadCreateMutex m, .done)
  | .lockMutex m msecs => k.threadLockMutexTimed m msecs
  | .unlockMutex m => k.threadUnlockMutex m
  | .destroyMutex m => k.threadDestroyMutex m
  | .eventInitQueue q => some (k.eventInitQueue q, .done)
  | .eventDoneQueue q => k.eventDoneQueue q
  | .eventWatchQueue q => k.eventWatchQueue q
  | .eventPut q event => k.eventPut q event
  | .eventGet q => k.eventGet q
  | .waitForEvents q msecs => k.waitForEventsTimed q msecs
  | .barrierCreate b autoclose => some (k.barrierCreate b autoclose, .done)
  | .barrierDone b => k.barrierDone b
  | .barrierOpen b => k.barrierOpen b
  | .barrierClose b => k.barrierClose b
  | .waitForBarrier b => k.waitForBarrier b
  | .ioWaitInit w => some (k.threadIoWaitInit w, .returns .EOK)
  | .ioWait w a msecs => k.threadIoWait w a msecs
  | .ioResume w => k.threadIoResume w
  | .poll table fds timeout again => k.poll table fds timeout again
  | .finish again => k.finish again
  | .tick now => some (k.setSched { k.sched with now := now }, .done)

/-- An action as a whole. -/
def exec (k : System N) (a : Action) : Option (System N) :=
  (k.act a).bind fun (k, outcome) => if outcome = .schedules then k.scheduleThread else some k

/-- A thread other than the idle thread runs and is in no call. -/
def Calling (k : System N) : Prop :=
  ∃ r ∈ k.sched.running, r ≠ THREAD_TID_IDLE ∧ k.call r = .none

/-- Objects are made before the kernel runs, or by a thread. -/
def Making (k : System N) : Prop := k.sched.running = none ∨ k.Calling

/-- The addresses of the items that the drivers add. -/
def newItems (fds : List (Option PollAnswer)) : List Nat :=
  fds.flatMap fun
    | none => []
    | some answer => answer.waits.map Prod.fst

/-- Who may do what, and which addresses are new.  Time goes on. -/
def Allowed (k : System N) : Action → Prop
  | .kernelRun => k.sched.running = none
  | .threadCreate _ _ => k.Making
  | .threadSuspend => ∃ r ∈ k.sched.running, k.call r = .none
  | .createMutex m => k.Making ∧ m ∉ k.mutexes
  | .eventInitQueue q => k.Making ∧ q ∉ k.evQueues
  | .barrierCreate b _ => k.Making ∧ b ∉ k.barriers
  | .ioWaitInit _ => k.Making
  | .eventPut _ _ | .barrierOpen _ | .barrierClose _ | .ioResume _ => True
  | .ioWait _ a _ => k.Calling ∧ k.item a = none
  | .poll table fds _ _ =>
    k.Calling ∧ table ∉ k.pollTables ∧ (newItems fds).Nodup ∧ ∀ a ∈ newItems fds, k.item a = none
  | .finish _ => ∃ r ∈ k.sched.running, k.call r ≠ .none
  | .tick now => k.sched.now ≤ now
  | _ => k.Calling

instance (k : System N) : Decidable k.Calling :=
  inferInstanceAs (Decidable (∃ r ∈ k.sched.running, _))

instance (k : System N) : Decidable k.Making := inferInstanceAs (Decidable (_ ∨ _))

instance (k : System N) : (a : Action) → Decidable (k.Allowed a)
  | .kernelRun => inferInstanceAs (Decidable (_ = _))
  | .threadSuspend => inferInstanceAs (Decidable (∃ r ∈ k.sched.running, _))
  | .createMutex _ | .eventInitQueue _ | .barrierCreate _ _ | .ioWait _ _ _ =>
    inferInstanceAs (Decidable (_ ∧ _))
  | .threadCreate _ _ | .ioWaitInit _ => inferInstanceAs (Decidable k.Making)
  | .eventPut _ _ | .barrierOpen _ | .barrierClose _ | .ioResume _ =>
    inferInstanceAs (Decidable True)
  | .poll _ _ _ _ => inferInstanceAs (Decidable (_ ∧ _ ∧ _ ∧ _))
  | .finish _ => inferInstanceAs (Decidable (∃ r ∈ k.sched.running, _))
  | .tick _ => inferInstanceAs (Decidable (_ ≤ _))
  | .threadMaySuspend | .threadDelay _ | .threadTerminate | .threadKill _ | .lockMutex _ _
  | .unlockMutex _ | .destroyMutex _ | .eventDoneQueue _ | .eventWatchQueue _ | .eventGet _
  | .waitForEvents _ _ | .barrierDone _ | .waitForBarrier _ =>
    inferInstanceAs (Decidable k.Calling)

end System

/-! ## The start -/

/-- `init_thread_lib` and `scheduler_init` -/
def initThreadLib (N : Nat) : Option (Sched N) :=
  if THREAD_TID_INVALID ≤ N then none
  else
    some {
      storage := fun _ => .unused
      threadNum := 0
      queues := ⟨fun _ => none, fun _ => .empty⟩
      running := none
      now := 0
      newDelayWq := SCHED_DELAY_MAX
      newDelayDq := SCHED_DELAY_MAX
      period := 0 }

/-- One of the threads of `kernel_threads_init`. -/
def Sched.addFirst {N : Nat} (s : Sched N) (name : List UInt8) (prio tid : Nat) :
    Option (Sched N) :=
  match s.initThread name prio with
  | none => none
  | some (s, newTid) =>
    if newTid ≠ tid then none
    else
      match s.addThread tid with
      | some (s, true) => some s
      | _ => none

def kernelThreadsInit {N : Nat} (s : Sched N) : Option (Sched N) :=
  (s.addFirst [0x49, 0x64, 0x6c, 0x65] THREAD_PRIO_IDLE THREAD_TID_IDLE).bind fun s =>
    s.addFirst [0x54, 0x69, 0x6d, 0x65, 0x72, 0x73] THREAD_PRIO_REALTIME THREAD_TID_TMRS

/-- The kernel when `kernel_libs_init` and `kernel_threads_init` are done. -/
def boot (N : Nat) : Option (System N) :=
  (initThreadLib N).bind fun s => (kernelThreadsInit s).map fun s => {
    sched := s
    mutexes := []
    mutex := fun _ => .init N
    evQueues := []
    evQueue := fun _ => ⟨[], THREAD_TID_INVALID⟩
    evIds := fun _ => false
    barriers := []
    barrier := fun _ => ⟨fun _ => false, false, false⟩
    waitQueues := []
    waitQueue := fun _ => []
    item := fun _ => none
    ioIds := fun _ => false
    pollTables := []
    pollTable := fun _ => ⟨[], false, THREAD_TID_INVALID⟩
    pollIds := fun _ => false
    call := fun _ => .none }

end DiegOS.Kernel
