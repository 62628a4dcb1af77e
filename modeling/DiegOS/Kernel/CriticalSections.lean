import DiegOS.Lib.LockPaths

/-!
# Critical sections

The paths of the functions of `io_waits.c`, `poll.c`, `alarms.c`,
`timers.c`, `events.c` and `barriers.c` that take the interrupt lock, with the
functions of the clock and of the scheduler that they call.  What an action does and how a
test comes out is left to the meaning of its name.

Main results:

- Theorem `functions_accepted`: every path has as many releases as locks.
- Theorem `critical_sections_balanced`: every function returns with the locks it was
  entered with, and no thread is switched with more of them.
-/

namespace DiegOS.Kernel.CriticalSections

open Lib.LockPaths
open Lib.LockPaths.Cmd (block when)

/-- The conditions of the source. -/
inductive Test where
  | badArgument
  | noItem
  | flagsDefault
  | appendFailed
  | waitRefused
  | msecs
  | queueCount
  | cursor
  | itemOfThread
  | itemIsPoll
  | removeFailed
  | waitQueues
  | notSignalled
  | badInstance
  | samePeriod
  | clockDevice
  | periodAccepted
  | callbackFree
  | callbackEqual
  | waitQueueCount
  | delayQueueCount
  | delayShorter
  | priorities
  | readyCount
  | runnerFound
  | houseKeeping
  | watchedAndQueued
  | barrierIsOpen
  | autoclose
  | barrierGiven
  | listEmpty
  | due
  | putFailed
  | recursive
  | shorter
  | nameGiven
  | clockRefused
  | start
  | expiredMatch
  | periodDiffers
  | becomesRecursive
  | becomesOneShot
  | anyExpired
  | barrierMissing
  | always
  | barrierRefused
  | expired
  | removeRefused
  | eventsLeft
  | dequeued
  | notQueued
  | notTaken
  | notWatcher
  | freeGiven
  | noTable
  | cursorGiven
  | entries
  | descriptor
  | driverWaits
  | pollFailed
  | ready
  | mustSleep
deriving DecidableEq, Repr

/-- The statements of the source that neither lock nor switch. -/
inductive Action where
  | print
  | storeFlags
  | clearRetcode
  | readTable
  | fillItem
  | maskEvents
  | countReady
  | setRetval
  | setFreefn
  | setName
  | fillFields
  | setMsecs
  | mallocItem
  | freeItem
  | setTid
  | listAppend
  | listRemove
  | listHead
  | nextNode
  | timedOut
  | bitmapSet
  | bitmapClear
  | resumeThreads
  | setSignalled
  | storePeriod
  | ioctrl
  | setPeriod
  | setCallback
  | clearCallback
  | scheduleWaiting
  | scheduleDelayed
  | newDelay
  | newRunner
  | nextPriority
  | doHouseKeeping
  | runningThread
  | kernelPanic
  | removeThread
  | barrierCreate
  | setOpen
  | clearOpen
  | readFlags
  | freeMemory
  | mallocMemory
  | listPrepend
  | setFlags
  | setExpiration
  | setErrno
  | dequeue
  | enqueue
  | queueInit
  | nextEntry
  | readEvents
deriving DecidableEq, Repr

/-- The body of a function. -/
abbrev Body := Cmd Action Test

/-! ## Clock -/

def clockAddCb : Body := block [
  .when .badInstance .ret,
  .lock,
  .when .callbackFree (block [.act .setCallback, .unlock, .ret]),
  .unlock,
  .ret]

def clockDelCb : Body := block [
  .when .badInstance .ret,
  .lock,
  .when .callbackEqual (block [.act .clearCallback, .unlock, .ret]),
  .unlock,
  .ret]

def clockSetPeriod : Body := block [
  .when .badInstance .ret,
  .act .storePeriod,
  .when .samePeriod .ret,
  .when .clockDevice (block [
    .lock,
    .act .ioctrl,
    .unlock,
    .when .periodAccepted (.act .setPeriod)]),
  .ret]

/-! ## Scheduler -/

def resumeOnEvents : Body := block [
  .act .listHead,
  .while .cursor (block [
    .when .watchedAndQueued (block [.act .resumeThreads, .act .bitmapClear]),
    .act .nextNode])]

def resumeOnBarriers : Body := block [
  .act .listHead,
  .while .cursor (block [
    .when .barrierIsOpen (block [
      .act .resumeThreads,
      .when .autoclose (.act .clearOpen)]),
    .act .nextNode])]

def resumeOnIoWait : Body := block [.lock, .act .resumeThreads, .unlock]

def resumeOnPoll : Body := block [.lock, .act .resumeThreads, .unlock]

def updateSchedule : Body := block [
  .call resumeOnEvents,
  .call resumeOnBarriers,
  .call resumeOnIoWait,
  .call resumeOnPoll,
  .when .waitQueueCount (.act .scheduleWaiting),
  .when .delayQueueCount (.act .scheduleDelayed),
  .ite .delayShorter (.act .newDelay) (.act .newDelay),
  .call clockSetPeriod,
  .when .clockRefused (.act .print)]

def scheduleThread : Body := block [
  .call updateSchedule,
  .while .priorities (block [
    .when .readyCount (block [.act .newRunner, .when .runnerFound .brk]),
    .act .nextPriority]),
  .when .houseKeeping (.act .doHouseKeeping)]

/-- `schedule_thread` and the switch to the thread it chose. -/
def switchAway : Body := block [.call scheduleThread, .act .runningThread, .switch]

/-! ## I/O waits -/

def threadIoWaitInternal : Body := block [
  .when .badArgument .ret,
  .lock,
  .act .mallocItem,
  .when .noItem (block [.unlock, .ret]),
  .act .storeFlags,
  .ite .flagsDefault (.act .setTid) (block [.act .freeItem, .unlock, .ret]),
  .act .listAppend,
  .when .appendFailed (block [.act .listRemove, .act .freeItem, .unlock, .ret]),
  .act .runningThread,
  .when .waitRefused (block [
    .act .print, .act .listRemove, .act .freeItem, .unlock, .ret]),
  .unlock,
  switchAway,
  .act .clearRetcode,
  .when .msecs (block [
    .lock,
    .when .queueCount (block [
      .act .listHead,
      .while .cursor (block [
        .when .itemOfThread (block [.act .timedOut, .brk]),
        .act .nextNode])]),
    .unlock]),
  .ret]

def pollWakeup : Body := block [
  .when .badArgument .ret,
  .lock,
  .act .readTable,
  .when .notSignalled (block [.act .setSignalled, .act .bitmapSet]),
  .unlock,
  .ret]

def threadIoResume : Body := block [
  .when .badArgument .ret,
  .lock,
  .while .queueCount (block [
    .act .listHead,
    .ite .itemIsPoll (.call pollWakeup) (.act .bitmapSet),
    .act .listRemove,
    .when .removeFailed .brk,
    .act .freeItem]),
  .unlock,
  .ret]

def ioWaitGetItem : Body := block [.lock, .act .mallocItem, .unlock, .ret]

def ioWaitPutItem : Body := block [.lock, .act .freeItem, .unlock]

def ioWaitAdd : Body := block [
  .ite .badArgument .skip (block [.lock, .act .listAppend, .unlock]),
  .ret]

def ioWaitRemove : Body := block [
  .ite .badArgument .skip (block [.lock, .act .listRemove, .unlock]),
  .ret]

def cancelIoWaits : Body := block [
  .lock,
  .act .listHead,
  .while .waitQueues (block [
    .act .listHead,
    .while .cursor (block [
      .when .itemOfThread (block [.act .listRemove, .act .freeItem, .brk]),
      .act .nextNode]),
    .act .nextNode]),
  .act .bitmapClear,
  .unlock,
  .ret]

/-! ## Poll -/

def cleanup : Body := block [
  .while .queueCount (block [
    .act .dequeue,
    .when .dequeued (block [
      .call ioWaitRemove,
      .call ioWaitPutItem,
      .act .freeItem])]),
  .act .listRemove,
  .act .freeItem]

def pollWait : Body := block [
  .when .badArgument .ret,
  .when .noTable .ret,
  .call ioWaitGetItem,
  .act .mallocItem,
  .when .noItem (block [
    .when .freeGiven (.call ioWaitPutItem),
    .when .cursorGiven (.act .freeItem),
    .ret]),
  .call ioWaitAdd,
  .when .appendFailed (block [.act .freeItem, .call ioWaitPutItem, .ret]),
  .act .fillItem,
  .act .enqueue,
  .ret]

/-- `device_poll`, where the driver waits on any number of queues. -/
def devicePoll : Body := block [
  .when .badArgument .ret,
  .while .driverWaits (.call pollWait),
  .act .readEvents,
  .ret]

/-- One round over the descriptors of a poll. -/
def pollEntries (found : Action) : Body := .while .entries (block [
  .when .descriptor (block [
    .call devicePoll,
    .when .pollFailed (block [.act .print, .call cleanup, .ret]),
    .act .maskEvents,
    .when .ready (.act found)]),
  .act .nextEntry])

def poll : Body := block [
  .when .badArgument .ret,
  .act .mallocItem,
  .when .noItem .ret,
  .act .listPrepend,
  .when .appendFailed (block [.act .freeItem, .ret]),
  .act .queueInit,
  .act .setTid,
  pollEntries .setSignalled,
  .when .mustSleep (block [
    .act .runningThread,
    .when .waitRefused (block [.act .print, .call cleanup, .ret]),
    switchAway]),
  pollEntries .countReady,
  .call cleanup,
  .ret]

/-! ## Barriers -/

def barrierOpen : Body := block [.lock, .when .barrierGiven (.act .setOpen), .unlock, .ret]

def barrierClose : Body := block [.lock, .when .barrierGiven (.act .clearOpen), .unlock, .ret]

def barrierDone : Body := block [
  .when .badArgument .ret,
  .call resumeOnBarriers,
  .act .listRemove,
  .ite .removeFailed (.act .print) (.act .freeMemory),
  .ret]

def waitForBarrier : Body := block [
  .when .badArgument (block [.act .print, .ret]),
  .lock,
  .act .readFlags,
  .unlock,
  .when .barrierIsOpen .ret,
  .act .bitmapSet,
  .act .runningThread,
  .when .waitRefused .ret,
  switchAway,
  .ret]

/-! ## Events -/

def eventDoneQueue : Body := block [
  .when .badArgument .ret,
  .lock,
  .when .eventsLeft (block [
    .act .print,
    .while .dequeued .skip]),
  .act .listRemove,
  .when .removeFailed (.act .setRetval),
  .act .freeMemory,
  .unlock,
  .ret]

def eventPut : Body := block [
  .when .badArgument .ret,
  .act .setFreefn,
  .lock,
  .act .enqueue,
  .unlock,
  .when .notQueued (block [.act .print, .act .setRetval]),
  .ret]

def eventGet : Body := block [
  .when .badArgument .ret,
  .lock,
  .act .dequeue,
  .unlock,
  .when .notTaken (.act .print),
  .ret]

def waitForEventsTimed : Body := block [
  .when .badArgument .ret,
  .act .runningThread,
  .when .notWatcher (block [.act .print, .ret]),
  .when .eventsLeft (block [.act .print, .ret]),
  .when .waitRefused (block [.act .print, .ret]),
  .act .bitmapSet,
  switchAway,
  .ret]

/-! ## Alarms -/

def alarmCb : Body := block [
  .act .setPeriod,
  .when .listEmpty .ret,
  .act .listHead,
  .while .cursor (block [
    .when .due (block [
      .call eventPut,
      .ite .putFailed (.act .print) (block [
        .act .setFlags,
        .ite .recursive (.when .shorter (.act .setPeriod)) (.act .setFlags)])]),
    .act .nextNode]),
  .call clockSetPeriod]

def alarmCreate : Body := block [
  .when .badArgument .ret,
  .act .mallocMemory,
  .when .noItem .ret,
  .when .listEmpty (block [
    .call clockAddCb,
    .when .clockRefused (block [.act .freeMemory, .act .print, .ret])]),
  .act .listPrepend,
  .when .appendFailed (block [.act .freeMemory, .ret]),
  .ite .nameGiven (.act .setName) (.act .setName),
  .act .setFlags,
  .when .recursive (.act .setFlags),
  .act .fillFields,
  .when .shorter (.call clockSetPeriod),
  .ret]

/-- `alarm_set` and `timer_set`. -/
def setState : Body := block [
  .when .badArgument (block [.act .setErrno, .ret]),
  .lock,
  .ite .start
    (block [.act .setFlags, .act .setExpiration])
    (block [.act .setFlags, .act .setExpiration]),
  .unlock]

def alarmSet : Body := setState

def alarmAcknowledge : Body := block [
  .when .badArgument .ret,
  .lock,
  .when .expiredMatch (block [.act .setExpiration, .act .setFlags]),
  .unlock,
  .ret]

/-- `alarm_update` and `timer_update`. -/
def update : Body := block [
  .when .badArgument .ret,
  .lock,
  .when .periodDiffers (block [
    .act .setMsecs,
    .when .shorter (.call clockSetPeriod)]),
  .ite .becomesRecursive (.act .setFlags) (.when .becomesOneShot (.act .setFlags)),
  .unlock,
  .ret]

def alarmUpdate : Body := update

/-- `alarm_done` and `timer_done`. -/
def done : Body := block [
  .when .badArgument .ret,
  .lock,
  .act .listRemove,
  .when .removeFailed (block [.unlock, .ret]),
  .when .listEmpty (block [
    .call clockSetPeriod,
    .call clockDelCb,
    .when .removeRefused (.act .print)]),
  .unlock,
  .act .freeMemory,
  .ret]

def alarmDone : Body := done

/-! ## Timers -/

def timerCb : Body := block [
  .act .setPeriod,
  .act .listHead,
  .while .cursor (block [
    .when .due (block [
      .act .setFlags,
      .ite .recursive (.when .shorter (.act .setPeriod)) (.act .setFlags)]),
    .act .nextNode]),
  .call clockSetPeriod,
  .when .anyExpired (.call barrierOpen)]

def timerCreate : Body := block [
  .when .badArgument (block [.act .setErrno, .ret]),
  .act .mallocMemory,
  .when .noItem (block [.act .setErrno, .ret]),
  .lock,
  .when .listEmpty (block [
    .call clockAddCb,
    .when .clockRefused (block [
      .unlock, .act .freeMemory, .act .print, .act .setErrno, .ret])]),
  .act .listPrepend,
  .when .appendFailed (block [.unlock, .act .freeMemory, .act .setErrno, .ret]),
  .ite .nameGiven (.act .setName) (.act .setName),
  .act .setFlags,
  .when .recursive (.act .setFlags),
  .act .fillFields,
  .when .shorter (.call clockSetPeriod),
  .unlock,
  .ret]

def timerSet : Body := setState

def timerUpdate : Body := update

def timerDone : Body := done

def threadTerminate : Body := block [
  .act .runningThread,
  .act .removeThread,
  .when .removeRefused (block [.act .print, .act .kernelPanic, .ret]),
  switchAway]

/-- `timers_thread_entry`; the callback of a timer is not given. -/
def timersThreadEntry : Body := block [
  .act .barrierCreate,
  .when .barrierMissing (.act .kernelPanic),
  .while .always (block [
    .call waitForBarrier,
    .when .barrierRefused .brk,
    .lock,
    .when .listEmpty (block [.unlock, .cont]),
    .act .listHead,
    .while .cursor (block [
      .when .expired (block [
        .ext,
        .act .setFlags,
        .when .recursive (.act .setExpiration)]),
      .act .nextNode]),
    .unlock]),
  .call barrierDone,
  .call threadTerminate]

/-! ## All functions -/

/-- The functions with a lock, and those that reach one of them. -/
inductive Function where
  | threadIoWaitInternal
  | threadIoResume
  | ioWaitGetItem
  | ioWaitPutItem
  | ioWaitAdd
  | ioWaitRemove
  | resumeOnIoWait
  | cancelIoWaits
  | cleanup
  | poll
  | pollWait
  | pollWakeup
  | resumeOnPoll
  | alarmCb
  | alarmCreate
  | alarmSet
  | alarmAcknowledge
  | alarmUpdate
  | alarmDone
  | timerCb
  | timerCreate
  | timerSet
  | timerUpdate
  | timerDone
  | timersThreadEntry
  | eventDoneQueue
  | eventPut
  | eventGet
  | waitForEventsTimed
  | barrierDone
  | barrierOpen
  | barrierClose
  | waitForBarrier
deriving DecidableEq, Repr

/-- The text of a function. -/
def Function.body : Function → Body
  | .threadIoWaitInternal => CriticalSections.threadIoWaitInternal
  | .threadIoResume => CriticalSections.threadIoResume
  | .ioWaitGetItem => CriticalSections.ioWaitGetItem
  | .ioWaitPutItem => CriticalSections.ioWaitPutItem
  | .ioWaitAdd => CriticalSections.ioWaitAdd
  | .ioWaitRemove => CriticalSections.ioWaitRemove
  | .resumeOnIoWait => CriticalSections.resumeOnIoWait
  | .cancelIoWaits => CriticalSections.cancelIoWaits
  | .cleanup => CriticalSections.cleanup
  | .poll => CriticalSections.poll
  | .pollWait => CriticalSections.pollWait
  | .pollWakeup => CriticalSections.pollWakeup
  | .resumeOnPoll => CriticalSections.resumeOnPoll
  | .alarmCb => CriticalSections.alarmCb
  | .alarmCreate => CriticalSections.alarmCreate
  | .alarmSet => CriticalSections.alarmSet
  | .alarmAcknowledge => CriticalSections.alarmAcknowledge
  | .alarmUpdate => CriticalSections.alarmUpdate
  | .alarmDone => CriticalSections.alarmDone
  | .timerCb => CriticalSections.timerCb
  | .timerCreate => CriticalSections.timerCreate
  | .timerSet => CriticalSections.timerSet
  | .timerUpdate => CriticalSections.timerUpdate
  | .timerDone => CriticalSections.timerDone
  | .timersThreadEntry => CriticalSections.timersThreadEntry
  | .eventDoneQueue => CriticalSections.eventDoneQueue
  | .eventPut => CriticalSections.eventPut
  | .eventGet => CriticalSections.eventGet
  | .waitForEventsTimed => CriticalSections.waitForEventsTimed
  | .barrierDone => CriticalSections.barrierDone
  | .barrierOpen => CriticalSections.barrierOpen
  | .barrierClose => CriticalSections.barrierClose
  | .waitForBarrier => CriticalSections.waitForBarrier

/-- Every path of every function has as many releases as locks. -/
theorem functions_accepted (f : Function) : accepted f.body = true := by
  cases f <;> decide

/-- Whatever the statements and tests mean, and with timer callbacks that keep the lock and
do not suspend, every function returns with the locks it got and switches with no more. -/
theorem critical_sections_balanced {σ : Type} (I : Meaning Action Test σ)
    (hcallbacks : I.Quiet) (f : Function) : Balanced I f.body := by
  apply balanced_of_accepted hcallbacks
  exact functions_accepted f

/-- The tests answer from a list, and nothing else has an effect. -/
def answers : Meaning Action Test (List Bool) where
  act := fun _ s => s
  test := fun _ s => (s.headD false, s.tail)
  switch := id
  ext := id

/-- The thread of the timers waits once, finds one expired timer and ends. -/
def oneTimer : List Bool := [
  false, true, false, false, false, false, false, false, false, false, false, true,
  false, false, false, false, false, true, true, false, false, false, true]

/-- Both switches of that run are made with the locks held at its start. -/
theorem critical_sections_balanced_timers :
    Balanced answers Function.timersThreadEntry.body ∧
      (eval answers 60 (.call Function.timersThreadEntry.body) ⟨oneTimer, 4, []⟩).1.switches =
        [4, 4] := by
  constructor
  · exact critical_sections_balanced answers (fun m => ⟨rfl, rfl⟩) .timersThreadEntry
  · decide

end DiegOS.Kernel.CriticalSections
