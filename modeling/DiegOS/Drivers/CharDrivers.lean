import DiegOS.Lib.SharedRing
import DiegOS.Lib.Runs

/-!
# Character drivers

The UART driver `16550d.c` and the keyboard of `i8042.c` statement by statement: any
thread may run `uart_write`, `uart_read` or `kbd_read`, an interrupt handler may
run between any two statements, also inside the inline functions of `cbuffers.h`, and
`thread_io_wait` puts the thread to sleep in a step of its own.

Main results:

- Theorem `Machine.step_of_exec`: what one step can do.
-/

namespace DiegOS.Drivers

open Lib (Ring)

def TX_SEQ_MAX : Nat := 16

def RX_SEQ_MAX : Nat := 14

def BUF_SIZE : Nat := 1024

def KBD_BUF_SIZE : Nat := 64

/-- Characters the receiver of the device holds. -/
def FIFO_SIZE : Nat := 16

/-- A value as an `unsigned`. -/
def toUnsigned (i : Int) : Nat := (i % 2 ^ 32).toNat

/-- A value as an `int`. -/
def toInt32 (i : Int) : Int := (i + 2 ^ 31) % 2 ^ 32 - 2 ^ 31

/-- A `struct cbuffer` with its array. -/
structure CBuffer where
  ring : Ring
  cells : Nat → UInt8

namespace CBuffer

/-- `cbuffer_init` after `calloc` -/
def init (buffersize : Nat) : CBuffer := ⟨Ring.init buffersize, fun _ => 0⟩

/-- Store a byte at the tail and `cbuffer_add`, inside a handler. -/
def push (b : CBuffer) (c : UInt8) : CBuffer :=
  ⟨b.ring.add, Function.update b.cells b.ring.tail c⟩

/-- The bytes in the buffer. -/
def items (b : CBuffer) : List UInt8 := b.ring.items b.cells

end CBuffer

/-- The `return` of `cbuffer_free_space` after its test `head <= tail`. -/
def freeSpaceReturn (r : Ring) (below : Bool) : Nat :=
  if below then toUnsigned (r.bufsize - r.tail + r.head - 1)
  else toUnsigned (r.head - r.tail - 1)

/-- The `return` of `cbuffer_in_use` after its test `head <= tail`. -/
def inUseReturn (r : Ring) (below : Bool) : Nat :=
  if below then toUnsigned (r.tail - r.head)
  else toUnsigned (r.bufsize - r.head + r.tail)

def cbufferFreeSpace (r : Ring) : Nat := freeSpaceReturn r (r.head ≤ r.tail)

/-! ## The transmitter -/

/-- The ring to the transmitter, `IER_ETBEI` and the bytes written to `THR` so far. -/
structure Transmit where
  buf : CBuffer
  etbei : Bool
  sent : List UInt8

/-- The loop of `uart_handle_tx_data`. -/
def sendLoop : Nat → Transmit → Transmit
  | 0, tx => tx
  | buffer + 1, tx =>
    if tx.buf.ring.isEmpty then tx
    else
      sendLoop buffer
        { tx with
          buf := { tx.buf with ring := tx.buf.ring.remove }
          sent := tx.sent ++ [tx.buf.cells tx.buf.ring.head] }

/-- `uart_handle_tx_data` up to `thread_io_resume` -/
def uartHandleTxData (tx : Transmit) : Transmit :=
  if (sendLoop TX_SEQ_MAX tx).buf.ring.isEmpty then { sendLoop TX_SEQ_MAX tx with etbei := false }
  else sendLoop TX_SEQ_MAX tx

/-- The next statement of `uart_write`. -/
inductive WritePc where
  /-- `cbuffer_free_space` of the waiting loop -/
  | waitTest
  | waitReturn (below : Bool)
  | ioWait
  | asleep
  /-- `buffer_space = cbuffer_free_space(&tx_cbuf)` -/
  | spaceTest
  | spaceReturn (below : Bool)
  | trim (bufferSpace : Nat)
  | wrapTest (copyBytes : Nat)
  | wrapAssign
  /-- `memcpy`, with the bytes copied so far -/
  | copy (copyBytes done : Nat)
  /-- `cbuffer_add_n` -/
  | addTail (copyBytes : Nat)
  | addTest (copyBytes : Nat)
  | addWrap (copyBytes : Nat)
  | account (copyBytes : Nat)
  /-- `enable_uart_tx` -/
  | enableRead
  | enableWrite
  | loop
  | finished
deriving DecidableEq, Repr

/-- A call of `uart_write`: what is left of the buffer and the buffer it was called with. -/
structure WriteCall where
  pc : WritePc
  buf : List UInt8
  bytes : Nat
  retval : Int
  whole : List UInt8

/-- `uart_write` up to its first waiting loop: a call that goes on, or an answer. -/
def uartWrite (buf : Option (List UInt8)) (unitno : Nat) : WriteCall ⊕ Int :=
  match buf with
  | none => .inr (-22)
  | some whole =>
    if unitno ≠ 0 then .inr (-22)
    else if whole.length = 0 then .inr 0
    else .inl ⟨.waitTest, whole, whole.length, 0, whole⟩

/-- One statement of `uart_write` outside `thread_io_wait`.  The first pass of the source
and its loop `while (bytes)` are the same statements. -/
def WriteCall.step (tx : Transmit) (c : WriteCall) : Transmit × WriteCall :=
  let r := tx.buf.ring
  match c.pc with
  | .waitTest => (tx, { c with pc := .waitReturn (r.head ≤ r.tail) })
  | .waitReturn below =>
    (tx, { c with pc := if freeSpaceReturn r below < TX_SEQ_MAX then .ioWait else .spaceTest })
  | .spaceTest => (tx, { c with pc := .spaceReturn (r.head ≤ r.tail) })
  | .spaceReturn below => (tx, { c with pc := .trim (freeSpaceReturn r below) })
  | .trim bufferSpace =>
    (tx, { c with pc := .wrapTest (if bufferSpace < c.bytes then bufferSpace else c.bytes) })
  | .wrapTest copyBytes =>
    (tx, { c with
      pc := if BUF_SIZE ≤ toUnsigned (r.tail + copyBytes) then .wrapAssign
        else .copy copyBytes 0 })
  | .wrapAssign => (tx, { c with pc := .copy (toUnsigned (BUF_SIZE - r.tail)) 0 })
  | .copy copyBytes done =>
    if done < copyBytes then
      ({ tx with buf := ⟨r, Function.update tx.buf.cells (r.tail + done) (c.buf.getD done 0)⟩ },
        { c with pc := .copy copyBytes (done + 1) })
    else (tx, { c with pc := .addTail copyBytes })
  | .addTail copyBytes =>
    ({ tx with buf := ⟨{ r with tail := toUnsigned (r.tail + copyBytes) }, tx.buf.cells⟩ },
      { c with pc := .addTest copyBytes })
  | .addTest copyBytes =>
    (tx, { c with pc := if r.bufsize ≤ r.tail then .addWrap copyBytes else .account copyBytes })
  | .addWrap copyBytes =>
    ({ tx with buf := ⟨{ r with tail := toUnsigned (r.tail - r.bufsize) }, tx.buf.cells⟩ },
      { c with pc := .account copyBytes })
  | .account copyBytes =>
    (tx, { c with
      pc := .enableRead
      retval := toInt32 (c.retval + copyBytes)
      buf := c.buf.drop copyBytes
      bytes := toUnsigned (c.bytes - copyBytes) })
  -- the handlers change no other bit of the register than the one set here
  | .enableRead => (tx, { c with pc := .enableWrite })
  | .enableWrite => ({ tx with etbei := true }, { c with pc := .loop })
  | .loop => (tx, { c with pc := if c.bytes ≠ 0 then .waitTest else .finished })
  | .ioWait | .asleep | .finished => (tx, c)

/-! ## The receiver -/

/-- What happened to a byte read from `RBR`: stored, or dropped with so much free space. -/
inductive Fate where
  | stored (b : UInt8)
  | dropped (b : UInt8) (freeSpace : Nat)
deriving DecidableEq, Repr

/-- The byte read. -/
def Fate.byte : Fate → UInt8
  | .stored b => b
  | .dropped b _ => b

/-- The byte, when it was stored. -/
def Fate.kept : Fate → Option UInt8
  | .stored b => some b
  | .dropped _ _ => none

/-- The ring from the receiver, the characters in the device, and the bytes read from
`RBR` so far. -/
structure Receive where
  buf : CBuffer
  fifo : List UInt8
  fates : List Fate

namespace Receive

/-- `rx_buf[rx_cbuf.tail] = read_register(COM1, RBR); cbuffer_add(&rx_cbuf);` -/
def store (rx : Receive) : Receive :=
  { buf := rx.buf.push (rx.fifo.headD 0)
    fifo := rx.fifo.tail
    fates := rx.fates ++ [.stored (rx.fifo.headD 0)] }

/-- `(void)read_register(COM1, RBR);` -/
def drop (rx : Receive) : Receive :=
  { rx with
    fifo := rx.fifo.tail
    fates := rx.fates ++ [.dropped (rx.fifo.headD 0) (cbufferFreeSpace rx.buf.ring)] }

/-- `while (rx_count--)` around a store -/
def storeTimes : Nat → Receive → Receive
  | 0, rx => rx
  | n + 1, rx => storeTimes n rx.store

/-- `while (rx_count--)` around a drop -/
def dropTimes : Nat → Receive → Receive
  | 0, rx => rx
  | n + 1, rx => dropTimes n rx.drop

/-- `while (rx_count-- && (retval & LSR_DR))` around a store -/
def storeWhile : Nat → Receive → Receive
  | 0, rx => rx
  | n + 1, rx => if rx.fifo = [] then rx else storeWhile n rx.store

/-- The bytes stored so far. -/
def kept (rx : Receive) : List UInt8 := rx.fates.filterMap Fate.kept

end Receive

/-- `uart_handle_recv_data_fifo` up to `thread_io_resume` -/
def uartHandleRecvDataFifo (rx : Receive) : Receive :=
  let bufferLeft := cbufferFreeSpace rx.buf.ring
  if bufferLeft = 0 then
    let rx := rx.dropTimes RX_SEQ_MAX
    -- reading `LSR` until no data is left
    rx.dropTimes rx.fifo.length
  else
    let rx := rx.storeTimes (if RX_SEQ_MAX < bufferLeft then RX_SEQ_MAX else bufferLeft)
    rx.storeWhile (cbufferFreeSpace rx.buf.ring)

/-- `uart_handle_recv_data_timeout` up to `thread_io_resume` -/
def uartHandleRecvDataTimeout (rx : Receive) : Receive :=
  rx.storeWhile (cbufferFreeSpace rx.buf.ring)

/-- The next statement of `uart_read`.  A copy and a removal know how many bytes are to be
copied after them, if any. -/
inductive ReadPc where
  | emptyTest
  | ioWait
  | asleep
  /-- `copy_bytes = cbuffer_in_use(&rx_cbuf)` -/
  | useTest
  | useReturn (below : Bool)
  | trim (copyBytes : Nat)
  | wrapTest
  /-- `memcpy`, with the bytes copied so far -/
  | copy (n done : Nat) (rest : Option Nat)
  /-- `cbuffer_remove_n` -/
  | removeHead (n : Nat) (rest : Option Nat)
  | removeTest (rest : Option Nat)
  | removeWrap (rest : Option Nat)
  | finished
deriving DecidableEq, Repr

/-- A call of `uart_read` with the bytes copied to the caller. -/
structure ReadCall where
  pc : ReadPc
  bytes : Nat
  retCopyBytes : Nat
  dest : List UInt8

/-- `uart_read` up to its waiting loop. -/
def uartRead (buf : Bool) (bytes unitno : Nat) : ReadCall ⊕ Int :=
  if !buf || unitno ≠ 0 then .inr (-22)
  else if bytes = 0 then .inr 0
  else .inl ⟨.emptyTest, bytes, 0, []⟩

/-- After a removal: the second copy, or the end. -/
def ReadPc.after : Option Nat → ReadPc
  | some n => .copy n 0 none
  | none => .finished

/-- One statement of `uart_read` outside `thread_io_wait`. -/
def ReadCall.step (rx : Receive) (c : ReadCall) : Receive × ReadCall :=
  let r := rx.buf.ring
  match c.pc with
  | .emptyTest => (rx, { c with pc := if r.isEmpty then .ioWait else .useTest })
  | .useTest => (rx, { c with pc := .useReturn (r.head ≤ r.tail) })
  | .useReturn below => (rx, { c with pc := .trim (inUseReturn r below) })
  | .trim copyBytes =>
    (rx, { c with
      pc := .wrapTest, retCopyBytes := if copyBytes ≤ c.bytes then copyBytes else c.bytes })
  | .wrapTest =>
    (rx, { c with
      pc := if BUF_SIZE ≤ toUnsigned (r.head + c.retCopyBytes) then
          .copy (toUnsigned (BUF_SIZE - r.head)) 0
            (some (toUnsigned (c.retCopyBytes - (BUF_SIZE - r.head))))
        else .copy c.retCopyBytes 0 none })
  | .copy n done rest =>
    if done < n then
      (rx, { c with
        pc := .copy n (done + 1) rest, dest := c.dest ++ [rx.buf.cells (r.head + done)] })
    else (rx, { c with pc := .removeHead n rest })
  | .removeHead n rest =>
    ({ rx with buf := ⟨{ r with head := toUnsigned (r.head + n) }, rx.buf.cells⟩ },
      { c with pc := .removeTest rest })
  | .removeTest rest =>
    (rx, { c with pc := if r.bufsize ≤ r.head then .removeWrap rest else .after rest })
  | .removeWrap rest =>
    ({ rx with buf := ⟨{ r with head := toUnsigned (r.head - r.bufsize) }, rx.buf.cells⟩ },
      { c with pc := .after rest })
  | .ioWait | .asleep | .finished => (rx, c)

/-! ## The keyboard -/

/-- `kbd_interrupt` up to `thread_io_resume` -/
def kbdInterrupt (kbd : CBuffer) (readval : UInt8) : CBuffer :=
  if cbufferFreeSpace kbd.ring ≠ 0 then kbd.push readval else kbd

/-- The next statement of `kbd_read`. -/
inductive KbdPc where
  | emptyTest
  | ioWait
  | asleep
  | loopTest
  | store
  /-- `cbuffer_remove` -/
  | removeHead
  | removeTest
  | removeWrap
  | decrement
  | finished
deriving DecidableEq, Repr

/-- A call of `kbd_read` with the bytes copied to the caller. -/
structure KbdCall where
  pc : KbdPc
  bytes : Nat
  count : Nat
  dest : List UInt8

/-- `kbd_read` up to its waiting loop. -/
def kbdRead (buf : Bool) (bytes unitno : Nat) : KbdCall ⊕ Int :=
  if unitno ≠ 0 then .inr (-6)
  else if !buf then .inr (-22)
  else if bytes = 0 then .inr 0
  else .inl ⟨.emptyTest, bytes, bytes, []⟩

/-- One statement of `kbd_read` outside `thread_io_wait`. -/
def KbdCall.step (kbd : CBuffer) (c : KbdCall) : CBuffer × KbdCall :=
  let r := kbd.ring
  match c.pc with
  | .emptyTest => (kbd, { c with pc := if r.isEmpty then .ioWait else .loopTest })
  | .loopTest =>
    (kbd, { c with pc := if !r.isEmpty && c.count ≠ 0 then .store else .finished })
  | .store => (kbd, { c with pc := .removeHead, dest := c.dest ++ [kbd.cells r.head] })
  | .removeHead =>
    (⟨{ r with head := toUnsigned (r.head + 1) }, kbd.cells⟩, { c with pc := .removeTest })
  | .removeTest =>
    (kbd, { c with pc := if r.head = r.bufsize then .removeWrap else .decrement })
  | .removeWrap => (⟨{ r with head := 0 }, kbd.cells⟩, { c with pc := .decrement })
  | .decrement => (kbd, { c with pc := .loopTest, count := toUnsigned (c.count - 1) })
  | .ioWait | .asleep | .finished => (kbd, c)

/-! ## Threads and interrupts -/

/-- `wq_w`, `wq_r` and `wq_kbd` -/
inductive WaitQueue where
  | writers
  | readers
  | keyboard
deriving DecidableEq, Repr

/-- What a thread does in the drivers. -/
inductive Call where
  | none
  | write (c : WriteCall)
  | read (c : ReadCall)
  | kbd (c : KbdCall)

/-- The wait queue a call sleeps on. -/
def Call.sleepsOn : Call → Option WaitQueue
  | .write ⟨.asleep, _, _, _, _⟩ => some .writers
  | .read ⟨.asleep, _, _, _⟩ => some .readers
  | .kbd ⟨.asleep, _, _, _⟩ => some .keyboard
  | _ => .none

/-- The wait queue a call is about to sleep on. -/
def Call.waitsOn : Call → Option WaitQueue
  | .write ⟨.ioWait, _, _, _, _⟩ => some .writers
  | .read ⟨.ioWait, _, _, _⟩ => some .readers
  | .kbd ⟨.ioWait, _, _, _⟩ => some .keyboard
  | _ => .none

/-- Go to sleep. -/
def Call.sleep : Call → Call
  | .none => .none
  | .write c => .write { c with pc := .asleep }
  | .read c => .read { c with pc := .asleep }
  | .kbd c => .kbd { c with pc := .asleep }

/-- Test again. -/
def Call.retry : Call → Call
  | .none => .none
  | .write c => .write { c with pc := .waitTest }
  | .read c => .read { c with pc := .emptyTest }
  | .kbd c => .kbd { c with pc := .emptyTest }

/-- The drivers with the wait queues, the wake-ups noted in `thread_ids`, and the calls
of the threads.  Apart from it, what the callers have seen: the bytes handed to
`uart_write`, the buffers and answers of its finished calls, the bytes received by the
device and the bytes and answers of the finished calls of `uart_read`. -/
structure Machine where
  tx : Transmit
  rx : Receive
  keyboard : CBuffer
  queue : WaitQueue → List Nat
  threadIds : Nat → Bool
  call : Nat → Call
  asked : List UInt8
  written : List (List UInt8 × Int)
  received : List UInt8
  taken : List (List UInt8 × Nat)

/-- The drivers after `uart_start` and `kbd_start`. -/
def Machine.start : Machine where
  tx := ⟨.init BUF_SIZE, false, []⟩
  rx := ⟨.init BUF_SIZE, [], []⟩
  keyboard := .init KBD_BUF_SIZE
  queue := fun _ => []
  threadIds := fun _ => false
  call := fun _ => .none
  asked := []
  written := []
  received := []
  taken := []

/-- What happens next. -/
inductive Action where
  | uartWrite (t : Nat) (buf : Option (List UInt8)) (unitno : Nat)
  | uartRead (t : Nat) (buf : Bool) (bytes unitno : Nat)
  | kbdRead (t : Nat) (buf : Bool) (bytes unitno : Nat)
  /-- One statement of a thread. -/
  | statement (t : Nat)
  /-- `thread_io_wait` finds no free item. -/
  | noItem (t : Nat)
  | resumeOnIoWait
  /-- The device receives a byte. -/
  | receive (b : UInt8)
  | txHoldEmpty
  | recvDataAvail
  | charTimeout
  | keyboard (b : UInt8)
deriving DecidableEq, Repr

namespace Machine

/-- The call of one thread. -/
def setCall (s : Machine) (t : Nat) (c : Call) : Machine :=
  { s with call := Function.update s.call t c }

def threadIoResume (s : Machine) (q : WaitQueue) : Machine :=
  { s with
    queue := Function.update s.queue q []
    threadIds := fun t => s.threadIds t || decide (t ∈ s.queue q) }

/-- `thread_io_wait` up to the switch to another thread -/
def threadIoWait (s : Machine) (t : Nat) (q : WaitQueue) : Machine :=
  { s.setCall t (s.call t).sleep with queue := Function.update s.queue q (s.queue q ++ [t]) }

def resumeOnIoWait (s : Machine) : Machine :=
  { s with
    threadIds := fun _ => false
    call := fun t =>
      if s.threadIds t ∧ (s.call t).sleepsOn ≠ .none then (s.call t).retry else s.call t }

/-- One statement of a thread that does not wait. -/
def run (s : Machine) (t : Nat) : Option Machine :=
  match s.call t with
  | .none => .none
  | .write c =>
    if c.pc = .finished then
      some { s.setCall t .none with written := s.written ++ [(c.whole, c.retval)] }
    else if c.pc = .asleep then .none
    else some { s.setCall t (.write (c.step s.tx).2) with tx := (c.step s.tx).1 }
  | .read c =>
    if c.pc = .finished then
      some { s.setCall t .none with taken := s.taken ++ [(c.dest, c.retCopyBytes)] }
    else if c.pc = .asleep then .none
    else some { s.setCall t (.read (c.step s.rx).2) with rx := (c.step s.rx).1 }
  | .kbd c =>
    if c.pc = .finished then some (s.setCall t .none)
    else if c.pc = .asleep then .none
    else some { s.setCall t (.kbd (c.step s.keyboard).2) with keyboard := (c.step s.keyboard).1 }

/-- One step, where it is possible. -/
def exec (s : Machine) : Action → Option Machine
  | .uartWrite t buf unitno =>
    match s.call t, Drivers.uartWrite buf unitno with
    | .none, .inl c => some { s.setCall t (.write c) with asked := s.asked ++ c.whole }
    | .none, .inr _ => some s
    | _, _ => .none
  | .uartRead t buf bytes unitno =>
    match s.call t, Drivers.uartRead buf bytes unitno with
    | .none, .inl c => some (s.setCall t (.read c))
    | .none, .inr _ => some s
    | _, _ => .none
  | .kbdRead t buf bytes unitno =>
    match s.call t, Drivers.kbdRead buf bytes unitno with
    | .none, .inl c => some (s.setCall t (.kbd c))
    | .none, .inr _ => some s
    | _, _ => .none
  | .statement t =>
    match (s.call t).waitsOn with
    | some q => some (s.threadIoWait t q)
    | .none => s.run t
  | .noItem t =>
    match (s.call t).waitsOn with
    | some _ => some (s.setCall t (s.call t).retry)
    | .none => .none
  | .resumeOnIoWait => some s.resumeOnIoWait
  | .receive b =>
    if s.rx.fifo.length < FIFO_SIZE then
      some { s with rx := { s.rx with fifo := s.rx.fifo ++ [b] }, received := s.received ++ [b] }
    else some s
  -- a transmit interrupt comes only while it is enabled
  | .txHoldEmpty =>
    if s.tx.etbei then some ({ s with tx := uartHandleTxData s.tx }.threadIoResume .writers)
    else .none
  -- the receiver's trigger level is `RX_SEQ_MAX`
  | .recvDataAvail =>
    if RX_SEQ_MAX ≤ s.rx.fifo.length then
      some ({ s with rx := uartHandleRecvDataFifo s.rx }.threadIoResume .readers)
    else .none
  | .charTimeout =>
    if s.rx.fifo ≠ [] then
      some ({ s with rx := uartHandleRecvDataTimeout s.rx }.threadIoResume .readers)
    else .none
  | .keyboard b =>
    some ({ s with keyboard := kbdInterrupt s.keyboard b }.threadIoResume .keyboard)

/-- What one step can do. -/
inductive Step (s : Machine) : Action → Machine → Prop where
  | refused {a : Action} (hother : ∀ t, a ≠ .statement t) : Step s a s
  | startWrite {t : Nat} {whole : List UInt8} (hidle : s.call t = .none) (hne : whole ≠ []) :
      Step s (.uartWrite t (some whole) 0)
        { s.setCall t (.write ⟨.waitTest, whole, whole.length, 0, whole⟩) with
          asked := s.asked ++ whole }
  | startRead {t bytes : Nat} (hidle : s.call t = .none) :
      Step s (.uartRead t true bytes 0) (s.setCall t (.read ⟨.emptyTest, bytes, 0, []⟩))
  | startKbd {t bytes : Nat} (hidle : s.call t = .none) :
      Step s (.kbdRead t true bytes 0) (s.setCall t (.kbd ⟨.emptyTest, bytes, bytes, []⟩))
  | sleep {t : Nat} {q : WaitQueue} (hwaits : (s.call t).waitsOn = some q) :
      Step s (.statement t) (s.threadIoWait t q)
  | write {t : Nat} {c : WriteCall} (hcall : s.call t = .write c) (hwait : c.pc ≠ .ioWait)
      (hasleep : c.pc ≠ .asleep) (hlast : c.pc ≠ .finished) :
      Step s (.statement t) { s.setCall t (.write (c.step s.tx).2) with tx := (c.step s.tx).1 }
  | writeDone {t : Nat} {c : WriteCall} (hcall : s.call t = .write c) (hlast : c.pc = .finished) :
      Step s (.statement t)
        { s.setCall t .none with written := s.written ++ [(c.whole, c.retval)] }
  | read {t : Nat} {c : ReadCall} (hcall : s.call t = .read c) (hwait : c.pc ≠ .ioWait)
      (hasleep : c.pc ≠ .asleep) (hlast : c.pc ≠ .finished) :
      Step s (.statement t) { s.setCall t (.read (c.step s.rx).2) with rx := (c.step s.rx).1 }
  | readDone {t : Nat} {c : ReadCall} (hcall : s.call t = .read c) (hlast : c.pc = .finished) :
      Step s (.statement t)
        { s.setCall t .none with taken := s.taken ++ [(c.dest, c.retCopyBytes)] }
  | kbd {t : Nat} {c : KbdCall} (hcall : s.call t = .kbd c) (hwait : c.pc ≠ .ioWait)
      (hasleep : c.pc ≠ .asleep) (hlast : c.pc ≠ .finished) :
      Step s (.statement t)
        { s.setCall t (.kbd (c.step s.keyboard).2) with keyboard := (c.step s.keyboard).1 }
  | kbdDone {t : Nat} {c : KbdCall} (hcall : s.call t = .kbd c) (hlast : c.pc = .finished) :
      Step s (.statement t) (s.setCall t .none)
  | noItem {t : Nat} {q : WaitQueue} (hwaits : (s.call t).waitsOn = some q) :
      Step s (.noItem t) (s.setCall t (s.call t).retry)
  | resume : Step s .resumeOnIoWait s.resumeOnIoWait
  | receive {b : UInt8} :
      Step s (.receive b)
        { s with rx := { s.rx with fifo := s.rx.fifo ++ [b] }, received := s.received ++ [b] }
  | txHoldEmpty (hon : s.tx.etbei = true) :
      Step s .txHoldEmpty ({ s with tx := uartHandleTxData s.tx }.threadIoResume .writers)
  | recvDataAvail (hfifo : RX_SEQ_MAX ≤ s.rx.fifo.length) :
      Step s .recvDataAvail ({ s with rx := uartHandleRecvDataFifo s.rx }.threadIoResume .readers)
  | charTimeout :
      Step s .charTimeout ({ s with rx := uartHandleRecvDataTimeout s.rx }.threadIoResume .readers)
  | keyboard {b : UInt8} :
      Step s (.keyboard b)
        ({ s with keyboard := kbdInterrupt s.keyboard b }.threadIoResume .keyboard)

lemma waitsOn_write {c : WriteCall} (h : (Call.write c).waitsOn = .none) : c.pc ≠ .ioWait := by
  intro hpc
  obtain ⟨pc, buf, bytes, retval, whole⟩ := c
  subst hpc
  cases h

lemma waitsOn_read {c : ReadCall} (h : (Call.read c).waitsOn = .none) : c.pc ≠ .ioWait := by
  intro hpc
  obtain ⟨pc, bytes, ret, dest⟩ := c
  subst hpc
  cases h

lemma waitsOn_kbd {c : KbdCall} (h : (Call.kbd c).waitsOn = .none) : c.pc ≠ .ioWait := by
  intro hpc
  obtain ⟨pc, bytes, count, dest⟩ := c
  subst hpc
  cases h

lemma step_of_run {s s' : Machine} {t : Nat} (hwaits : (s.call t).waitsOn = .none)
    (h : s.run t = some s') : s.Step (.statement t) s' := by
  unfold run at h
  cases hcall : s.call t with
  | none =>
    rw [hcall] at h
    cases h
  | write c =>
    rw [hcall] at h hwaits
    have hwait := waitsOn_write hwaits
    simp only at h
    split_ifs at h with hlast hasleep
    · cases h
      exact .writeDone hcall hlast
    · cases h
      exact .write hcall hwait hasleep hlast
  | read c =>
    rw [hcall] at h hwaits
    have hwait := waitsOn_read hwaits
    simp only at h
    split_ifs at h with hlast hasleep
    · cases h
      exact .readDone hcall hlast
    · cases h
      exact .read hcall hwait hasleep hlast
  | kbd c =>
    rw [hcall] at h hwaits
    have hwait := waitsOn_kbd hwaits
    simp only at h
    split_ifs at h with hlast hasleep
    · cases h
      exact .kbdDone hcall hlast
    · cases h
      exact .kbd hcall hwait hasleep hlast

lemma uartWrite_eq {buf : Option (List UInt8)} {unitno : Nat} {c : WriteCall}
    (h : Drivers.uartWrite buf unitno = .inl c) :
    ∃ whole, whole ≠ [] ∧ buf = some whole ∧ unitno = 0 ∧
      c = ⟨.waitTest, whole, whole.length, 0, whole⟩ := by
  cases buf with
  | none => cases h
  | some whole =>
    simp only [Drivers.uartWrite] at h
    split_ifs at h with hunit hlen
    cases h
    exact ⟨whole, fun hnil => hlen (by rw [hnil]; rfl), rfl, not_not.mp hunit, rfl⟩

/-- What one step can do. -/
theorem step_of_exec {s s' : Machine} {a : Action} (h : s.exec a = some s') : s.Step a s' := by
  cases a with
  | uartWrite t buf unitno =>
    simp only [exec] at h
    split at h
    · next c hidle hc =>
        cases h
        obtain ⟨whole, hne, rfl, rfl, rfl⟩ := uartWrite_eq hc
        exact .startWrite hidle hne
    · cases h
      exact .refused fun t ht => by cases ht
    · cases h
  | uartRead t buf bytes unitno =>
    simp only [exec] at h
    split at h
    · next c hidle hc =>
        cases h
        simp only [Drivers.uartRead] at hc
        split_ifs at hc with hunit hlen
        cases hc
        simp only [Bool.or_eq_true, Bool.not_eq_eq_eq_not, Bool.not_true, decide_eq_true_eq,
          not_or, Bool.not_eq_false, not_not] at hunit
        obtain ⟨rfl, rfl⟩ := hunit
        exact .startRead hidle
    · cases h
      exact .refused fun t ht => by cases ht
    · cases h
  | kbdRead t buf bytes unitno =>
    simp only [exec] at h
    split at h
    · next c hidle hc =>
        cases h
        simp only [Drivers.kbdRead] at hc
        split_ifs at hc with hunit hbuf hlen
        cases hc
        simp only [Bool.not_eq_true, Bool.not_eq_false', not_not] at hunit hbuf
        subst hunit hbuf
        exact .startKbd hidle
    · cases h
      exact .refused fun t ht => by cases ht
    · cases h
  | statement t =>
    simp only [exec] at h
    split at h
    · next q hwaits =>
        cases h
        exact .sleep hwaits
    · next hwaits => exact step_of_run hwaits h
  | noItem t =>
    simp only [exec] at h
    split at h
    · next q hwaits =>
        cases h
        exact .noItem hwaits
    · cases h
  | resumeOnIoWait =>
    cases h
    exact .resume
  | receive b =>
    simp only [exec] at h
    split_ifs at h
    · cases h
      exact .receive
    · cases h
      exact .refused fun t ht => by cases ht
  | txHoldEmpty =>
    simp only [exec] at h
    split_ifs at h with hon
    cases h
    exact .txHoldEmpty hon
  | recvDataAvail =>
    simp only [exec] at h
    split_ifs at h with hfifo
    cases h
    exact .recvDataAvail hfifo
  | charTimeout =>
    simp only [exec] at h
    split_ifs at h
    cases h
    exact .charTimeout
  | keyboard b =>
    cases h
    exact .keyboard

end Machine
end DiegOS.Drivers
