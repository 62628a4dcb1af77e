import DiegOS.Drivers.CharDrivers
import DiegOS.Kernel.Objects

/-!
# Polling the UART

`poll` of `poll.c` on descriptors of the UART, statement by statement, with
`uart_poll`, the wait queues of `io_waits.c` and what the scheduler does to a thread that
waits.  Interrupt handlers, other threads and `thread_io_resume` may come between any two
statements.

Main results:

- Theorem `ItemQueue.mem_live_append`: what a registration adds to a wait queue.
-/

namespace DiegOS.Drivers

open Kernel (OPEN_MAX THREAD_TID_IDLE WaitItem)

def EPERM : Int := -1

def ENOMEM : Int := -12

def EINVAL : Int := -22

def ETIMEDOUT : Int := -61

/-- `POLLIN | POLLRDNORM` -/
def POLLIN_RDNORM : UInt16 := 0x03

/-- `POLLOUT | POLLWRNORM` -/
def POLLOUT_WRNORM : UInt16 := 0xC0

/-! ## The driver -/

/-- The two rings of the driver. -/
structure Uart where
  tx : Transmit
  rx : Receive

/-- What `uart_poll` reports of the receiver. -/
def Uart.rxEvents (u : Uart) : UInt16 := if u.rx.buf.ring.isEmpty then 0 else POLLIN_RDNORM

/-- What `uart_poll` reports of the transmitter. -/
def Uart.txEvents (u : Uart) : UInt16 := if u.tx.buf.ring.isEmpty then 0 else POLLOUT_WRNORM

/-- A `struct pollfd` without the events read: the unit of the UART that `fdget` finds,
and the events asked for. -/
structure PollFd where
  unitno : Option Nat
  revents : UInt16
deriving DecidableEq, Repr

/-- The driver reports a requested event. -/
def PollFd.ready (u : Uart) (fd : PollFd) : Bool :=
  fd.unitno = some 0 && ((u.rxEvents ||| u.txEvents) &&& fd.revents) ≠ 0

/-- The entries of which the driver reports a requested event. -/
def countReady (u : Uart) (ufds : List PollFd) : Nat := ufds.countP (PollFd.ready u)

/-! ## Wait queues -/

/-- A `struct wait_queue_item` at its address.  What it holds when it is added for a poll table
is what its memory held before, until its fields are set. -/
structure QueueItem where
  addr : Nat
  item : WaitItem
  set : Bool
deriving DecidableEq, Repr

/-- A wait queue: `list_count` and the items behind its head. -/
structure ItemQueue where
  counter : Nat
  items : List QueueItem
deriving DecidableEq, Repr

namespace ItemQueue

/-- `list_append`, which looks at the counter only. -/
def append (q : ItemQueue) (x : QueueItem) : ItemQueue :=
  if q.counter = 0 then ⟨1, [x]⟩ else ⟨q.counter + 1, q.items ++ [x]⟩

/-- `list_remove`, which counts down also for an item that is not there. -/
def remove (q : ItemQueue) (a : Nat) : ItemQueue :=
  if q.counter = 0 then q else ⟨q.counter - 1, q.items.filter fun x => x.addr ≠ a⟩

/-- The fields of an item are set. -/
def setItem (q : ItemQueue) (a : Nat) (i : WaitItem) : ItemQueue :=
  { q with items := q.items.map fun x => if x.addr = a then ⟨a, i, true⟩ else x }

/-- The items that the counter tells of. -/
def live (q : ItemQueue) : List QueueItem := if q.counter = 0 then [] else q.items

variable {q : ItemQueue} {x y : QueueItem} {a : Nat} {i : WaitItem}

lemma live_eq (h : q.counter ≠ 0) : q.live = q.items := if_neg h

/-- What a registration adds to a wait queue. -/
theorem mem_live_append (h : y ∈ (q.append x).live) : y ∈ q.live ∨ y = x := by
  unfold append at h
  split at h
  · exact .inr (List.mem_singleton.mp h)
  · next hcounter =>
      rw [live_eq (Nat.succ_ne_zero _)] at h
      rw [live_eq hcounter]
      rcases List.mem_append.mp h with hold | hnew
      · exact .inl hold
      · exact .inr (List.mem_singleton.mp hnew)

lemma mem_live_remove (h : y ∈ (q.remove a).live) : y ∈ q.live ∧ y.addr ≠ a := by
  by_cases hzero : q.counter = 0
  · rw [remove, if_pos hzero, live, if_pos hzero] at h
    cases h
  · rw [remove, if_neg hzero] at h
    by_cases hlast : q.counter - 1 = 0
    · rw [live, if_pos hlast] at h
      cases h
    · rw [live_eq hlast] at h
      rw [live_eq hzero]
      have hfilter := List.mem_filter.mp h
      exact ⟨hfilter.1, of_decide_eq_true hfilter.2⟩

lemma mem_live_setItem (h : y ∈ (q.setItem a i).live) : y ∈ q.live ∨ y = ⟨a, i, true⟩ := by
  by_cases hzero : q.counter = 0
  · have hcounter : (q.setItem a i).counter = 0 := hzero
    rw [live, if_pos hcounter] at h
    cases h
  · have hcounter : (q.setItem a i).counter ≠ 0 := hzero
    rw [live_eq hcounter] at h
    rw [live_eq hzero]
    obtain ⟨x, hx, heq⟩ := List.mem_map.mp h
    split at heq
    · exact .inr heq.symm
    · rw [← heq]
      exact .inl hx

end ItemQueue

/-- A `poll_table_t`, with the items and wait queues of its `poll_item`s. -/
structure Table where
  items : List (Nat × WaitQueue)
  signalled : Bool
  tid : Nat
deriving DecidableEq, Repr

/-! ## Calls -/

/-- The next statement of `poll`, with the entry it is at and the events found so far. -/
inductive PollPc where
  /-- `fdget` and the test of the receiver's ring, in the first loop -/
  | first (i : Nat)
  | firstTx (i : Nat) (ret : UInt16)
  /-- `poll_wait` up to `io_wait_add` -/
  | register (q : WaitQueue) (i : Nat) (ret : UInt16)
  | setFields (q : WaitQueue) (i : Nat) (ret : UInt16) (a : Nat)
  | firstStore (i : Nat) (ret : UInt16)
  /-- `if (!newtable->signalled && (timeout != 0))` -/
  | decide
  | wait
  | asleep
  /-- the second loop -/
  | second (i : Nat)
  | secondTx (i : Nat) (ret : UInt16)
  | secondStore (i : Nat) (ret : UInt16)
  /-- `cleanup`, with an answer if there is one already -/
  | cleanup (answer : Option Int)
deriving DecidableEq, Repr

/-- A call of `poll`: the entries with the events stored in them, and apart from it when it was
made and whether its time-out has ended its wait. -/
structure PollCall where
  pc : PollPc
  ufds : List PollFd
  events : Nat → UInt16
  timeout : Int
  table : Nat
  retvalue : Nat
  start : Nat
  expired : Bool

/-- What a thread is doing: nothing here, `poll`, or `thread_io_wait`. -/
inductive UserCall where
  | none
  | poll (c : PollCall)
  | ioWait

/-- The state of a thread; a time to wake up is there with `THREAD_FLAG_WAIT_TIMEOUT`. -/
inductive ThreadState where
  | ready
  | waiting (delay : Option Nat)
deriving DecidableEq, Repr

/-- What a call of `poll` has returned, and how many entries were ready at that time. -/
structure PollAnswer where
  timeout : Int
  start : Nat
  finish : Nat
  value : Int
  ready : Nat
deriving DecidableEq, Repr

/-- The system: the UART, the wait queues, the poll tables in the order of the calls, the bits
`thread_ids` of `io_waits.c` and of `poll.c`, the latter each with the table it was
set for, the threads and the clock.  Apart from it, the waits that a bit of `poll.c` has ended,
each with the table the bit was set for and that of the wait, and the answers of `poll`. -/
structure PollSystem where
  uart : Uart
  queue : WaitQueue → ItemQueue
  table : Nat → Table
  tables : Nat
  ioIds : Nat → Bool
  pollIds : List (Nat × Nat)
  state : Nat → ThreadState
  call : Nat → UserCall
  now : Nat
  ended : List (Nat × Option Nat)
  answers : List PollAnswer

/-- What happens next. -/
inductive PollAction where
  /-- `poll`, where a table may be free -/
  | poll (t : Nat) (ufds : List PollFd) (timeout : Int) (free : Bool)
  /-- The next statement of a thread, with the item the pools offer and its former contents. -/
  | statement (t : Nat) (offer : Option (Nat × WaitItem))
  /-- `thread_io_wait_timed`, or `thread_io_wait` with 0 -/
  | ioWait (t : Nat) (q : WaitQueue) (msecs a : Nat)
  | ioReturn (t : Nat)
  | resumeOnIoWait
  | resumeOnPoll
  /-- `schedule_waiting` finds that the time of a thread has come. -/
  | expire (t : Nat)
  | tick (msecs : Nat)
  | threadIoResume (q : WaitQueue)
  | receive (b : UInt8)
  | txHoldEmpty
  | recvDataAvail
  | charTimeout
  /-- What other threads make of the rings. -/
  | rings (u : Uart)

namespace PollSystem

def pollWakeup (s : PollSystem) (p : Nat) : PollSystem :=
  let pt := s.table p
  if pt.signalled then s
  else
    { s with
      table := Function.update s.table p { pt with signalled := true }
      pollIds := s.pollIds ++ [(pt.tid, p)] }

/-- The body of the loop of `thread_io_resume`. -/
def noteItem (s : PollSystem) : WaitItem → PollSystem
  | .owner t => { s with ioIds := Function.update s.ioIds t true }
  | .poll p => s.pollWakeup p

/-- The loop of `thread_io_resume`. -/
def noteItems : List QueueItem → PollSystem → PollSystem
  | [], s => s
  | x :: l, s => noteItems l (s.noteItem x.item)

def threadIoResume (s : PollSystem) (q : WaitQueue) : Option PollSystem :=
  let wq := s.queue q
  if wq.items.length < wq.counter then .none
  else
    some { noteItems (wq.items.take wq.counter) s with
      queue := Function.update s.queue q ⟨0, wq.items.drop wq.counter⟩ }

/-- The call of one thread. -/
def setCall (s : PollSystem) (t : Nat) (c : UserCall) : PollSystem :=
  { s with call := Function.update s.call t c }

/-- A wait queue changes. -/
def setQueue (s : PollSystem) (q : WaitQueue) (wq : ItemQueue) : PollSystem :=
  { s with queue := Function.update s.queue q wq }

/-- A poll table changes. -/
def setTable (s : PollSystem) (p : Nat) (pt : Table) : PollSystem :=
  { s with table := Function.update s.table p pt }

/-- An item is in some wait queue. -/
def linked (s : PollSystem) (a : Nat) : Bool :=
  [WaitQueue.writers, .readers, .keyboard].any fun q => (s.queue q).live.any fun x => x.addr = a

/-- An item is in another wait queue. -/
def linkedElsewhere (s : PollSystem) (q : WaitQueue) (a : Nat) : Bool :=
  (s.setQueue q ⟨0, []⟩).linked a

/-- `scheduler_wait_thread` of a thread other than the idle thread -/
def schedulerWaitThread (s : PollSystem) (t msecs : Nat) : PollSystem :=
  let delay := if msecs ≠ 0 then some (s.now + msecs) else none
  { s with state := Function.update s.state t (.waiting delay) }

/-- `poll` returns. -/
def answer (s : PollSystem) (ufds : List PollFd) (timeout : Int) (start : Nat) (value : Int) :
    PollSystem :=
  { s with answers := s.answers ++ [⟨timeout, start, s.now, value, countReady s.uart ufds⟩] }

/-- `poll` up to its first loop -/
def poll (s : PollSystem) (t : Nat) (ufds : List PollFd) (timeout : Int) (free : Bool) :
    PollSystem :=
  if ufds = [] ∨ OPEN_MAX < ufds.length then s.answer ufds timeout s.now EINVAL
  else if !free then s.answer ufds timeout s.now ENOMEM
  else
    { (s.setTable s.tables ⟨[], false, t⟩).setCall t
        (.poll ⟨.first 0, ufds, fun _ => 0, timeout, s.tables, 0, s.now, false⟩) with
      tables := s.tables + 1 }

/-- After `poll_wait` for one of the two queues. -/
def afterRegister (q : WaitQueue) (i : Nat) (ret : UInt16) : PollPc :=
  if q = .readers then .register .writers i ret else .firstStore i ret

/-- What `poll` returns. -/
def pollValue (retvalue : Nat) : Int := if retvalue ≠ 0 then retvalue else ETIMEDOUT

/-- The next statement of `poll`. -/
def pollStep (s : PollSystem) (t : Nat) (offer : Option (Nat × WaitItem)) (c : PollCall) :
    Option PollSystem :=
  match c.pc with
  | .first i =>
    match c.ufds[i]? with
    | .none => some (s.setCall t (.poll { c with pc := .decide }))
    | some fd =>
      some (s.setCall t (.poll { c with
        pc := match fd.unitno with
          | .none => .first (i + 1)
          | some 0 => .firstTx i s.uart.rxEvents
          | some _ => .firstStore i 0 }))
  | .firstTx i ret =>
    some (s.setCall t (.poll { c with pc := .register .readers i (ret ||| s.uart.txEvents) }))
  | .register q i ret =>
    match offer with
    | .none => some (s.setCall t (.poll { c with pc := afterRegister q i ret }))
    | some (a, former) =>
      if s.linked a then .none
      else
        some ((s.setQueue q ((s.queue q).append ⟨a, former, false⟩)).setCall t
          (.poll { c with pc := .setFields q i ret a }))
  -- an item that has got into another wait queue is no longer the one of this call
  | .setFields q i ret a =>
    if s.linkedElsewhere q a then .none
    else
      let pt := s.table c.table
      some (((s.setQueue q ((s.queue q).setItem a (.poll c.table))).setTable c.table
        { pt with items := pt.items ++ [(a, q)] }).setCall t
          (.poll { c with pc := afterRegister q i ret }))
  | .firstStore i ret =>
    let found := ret &&& ((c.ufds[i]?).elim 0 PollFd.revents)
    let pt := s.table c.table
    some ((s.setTable c.table { pt with signalled := pt.signalled || found ≠ 0 }).setCall t
      (.poll { c with pc := .first (i + 1), events := Function.update c.events i found }))
  | .decide =>
    some (s.setCall t (.poll { c with
      pc := if (s.table c.table).signalled = false ∧ c.timeout ≠ 0 then .wait else .second 0 }))
  | .wait =>
    if t = THREAD_TID_IDLE then
      some (s.setCall t (.poll { c with pc := .cleanup (some EPERM) }))
    else
      some ((s.setCall t (.poll { c with pc := .asleep })).schedulerWaitThread t
        (if c.timeout < 0 then 0 else c.timeout.toNat))
  | .asleep => some (s.setCall t (.poll { c with pc := .second 0 }))
  | .second i =>
    match c.ufds[i]? with
    | .none => some (s.setCall t (.poll { c with pc := .cleanup .none }))
    | some fd =>
      some (s.setCall t (.poll { c with
        pc := match fd.unitno with
          | .none => .second (i + 1)
          | some 0 => .secondTx i s.uart.rxEvents
          | some _ => .secondStore i 0 }))
  | .secondTx i ret =>
    some (s.setCall t (.poll { c with pc := .secondStore i (ret ||| s.uart.txEvents) }))
  | .secondStore i ret =>
    let found := ret &&& ((c.ufds[i]?).elim 0 PollFd.revents)
    some (s.setCall t (.poll { c with
      pc := .second (i + 1)
      events := Function.update c.events i found
      retvalue := if found ≠ 0 then c.retvalue + 1 else c.retvalue }))
  | .cleanup value =>
    let pt := s.table c.table
    match pt.items with
    | [] =>
      some ((s.answer c.ufds c.timeout c.start (value.getD (pollValue c.retvalue))).setCall t
        .none)
    | (a, q) :: rest =>
      if s.linkedElsewhere q a then .none
      else
        some ((s.setQueue q ((s.queue q).remove a)).setTable c.table { pt with items := rest })

/-- `thread_io_wait_internal` up to `schedule_thread` -/
def threadIoWait (s : PollSystem) (t : Nat) (q : WaitQueue) (msecs a : Nat) : PollSystem :=
  let s' := s.setQueue q ((s.queue q).append ⟨a, .owner t, true⟩)
  if t = THREAD_TID_IDLE then s'.setQueue q ((s'.queue q).remove a)
  else (s'.setCall t .ioWait).schedulerWaitThread t msecs

def resumeOnIoWait (s : PollSystem) : PollSystem :=
  { s with
    state := fun t => if s.ioIds t then .ready else s.state t
    ioIds := fun _ => false }

/-- The table of a call that waits. -/
def waitTable : UserCall → Option Nat
  | .poll c => some c.table
  | _ => .none

/-- The bit of a thread in `thread_ids` of `poll.c`. -/
def pollBit (s : PollSystem) (t : Nat) : Bool := s.pollIds.any fun x => x.1 = t

/-- A wait that a bit ends. -/
def endedWait (s : PollSystem) (x : Nat × Nat) : Option (Nat × Option Nat) :=
  if s.state x.1 = .ready then .none else some (x.2, waitTable (s.call x.1))

def resumeOnPoll (s : PollSystem) : PollSystem :=
  { s with
    state := fun t => if s.pollBit t then .ready else s.state t
    pollIds := []
    ended := s.ended ++ s.pollIds.filterMap s.endedWait }

/-- `schedule_waiting` for one thread. -/
def expire (s : PollSystem) (t : Nat) : Option PollSystem :=
  match s.state t with
  | .waiting (some delay) =>
    if delay ≤ s.now then
      some { s.setCall t (match s.call t with
          | .poll c => .poll { c with expired := true }
          | call => call) with
        state := Function.update s.state t .ready }
    else .none
  | _ => .none

/-- A handler has changed the rings and resumes the threads of a wait queue. -/
def handler (s : PollSystem) (u : Uart) (q : WaitQueue) : Option PollSystem :=
  { s with uart := u }.threadIoResume q

/-- One step, where it is possible. -/
def exec (s : PollSystem) : PollAction → Option PollSystem
  | .poll t ufds timeout free =>
    match s.state t, s.call t with
    | .ready, .none => some (s.poll t ufds timeout free)
    | _, _ => .none
  | .statement t offer =>
    match s.state t, s.call t with
    | .ready, .poll c => s.pollStep t offer c
    | _, _ => .none
  | .ioWait t q msecs a =>
    match s.state t, s.call t with
    | .ready, .none => if s.linked a then .none else some (s.threadIoWait t q msecs a)
    | _, _ => .none
  | .ioReturn t =>
    match s.state t, s.call t with
    | .ready, .ioWait => some (s.setCall t .none)
    | _, _ => .none
  | .resumeOnIoWait => some s.resumeOnIoWait
  | .resumeOnPoll => some s.resumeOnPoll
  | .expire t => s.expire t
  | .tick msecs => some { s with now := s.now + msecs }
  | .threadIoResume q => s.threadIoResume q
  | .receive b =>
    let rx := s.uart.rx
    some { s with
      uart := { s.uart with
        rx := if rx.fifo.length < FIFO_SIZE then { rx with fifo := rx.fifo ++ [b] } else rx } }
  | .txHoldEmpty =>
    if s.uart.tx.etbei then
      s.handler { s.uart with tx := uartHandleTxData s.uart.tx } .writers
    else .none
  | .recvDataAvail =>
    if RX_SEQ_MAX ≤ s.uart.rx.fifo.length then
      s.handler { s.uart with rx := uartHandleRecvDataFifo s.uart.rx } .readers
    else .none
  | .charTimeout =>
    if s.uart.rx.fifo ≠ [] then
      s.handler { s.uart with rx := uartHandleRecvDataTimeout s.uart.rx } .readers
    else .none
  | .rings u => some { s with uart := u }

/-- The system after `uart_start`. -/
def start : PollSystem where
  uart := ⟨⟨.init BUF_SIZE, false, []⟩, ⟨.init BUF_SIZE, [], []⟩⟩
  queue := fun _ => ⟨0, []⟩
  table := fun _ => ⟨[], false, THREAD_TID_IDLE⟩
  tables := 0
  ioIds := fun _ => false
  pollIds := []
  state := fun _ => .ready
  call := fun _ => .none
  now := 0
  ended := []
  answers := []

end PollSystem

end DiegOS.Drivers
