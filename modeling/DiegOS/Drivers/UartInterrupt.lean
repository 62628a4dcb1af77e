import DiegOS.Drivers.UartReceive

/-!
# The interrupt of the UART

`uart_interrupt` serves what the device reports in `IIR` until nothing is pending.  The
device may report any condition that holds, in any order and again after it was served; it keeps
reporting received data until the receiver has been read below the condition.

Main results:

- Theorem `UartDevice.Live.serve`: what a pass leaves to be done, when the pending bytes fit.
- Theorem `UartDevice.Flooded.timeout`: what a pass leaves to be done, when they do not.
- Theorem `interrupt_ends_iff`: when the handler comes to an end.
-/

namespace DiegOS.Drivers

open Lib (Ring)

def IIR_NO_INT_PEND : UInt8 := 0x01

def IIR_RCVR_LINE_STAT : UInt8 := 0x06

def IIR_RCV_DATA_AVAIL : UInt8 := 0x04

def IIR_CHAR_TIMEOUT : UInt8 := 0x0C

def IIR_TRSR_HOLD_EMPTY : UInt8 := 0x02

def IIR_MODEM_STATUS : UInt8 := 0x00

def IIR_INT_MASK : UInt8 := 0x0E

/-- The two sides of the driver with what else the device has to report: line errors and changes
of the modem lines that were not read yet, and whether a character time-out was reported for the
bytes in the receiver. -/
structure UartDevice where
  tx : Transmit
  rx : Receive
  lineErrors : Nat
  modemChanges : Nat
  timedOut : Bool

namespace UartDevice

/-- The `switch` of `uart_interrupt`.  A handler that has emptied the receiver ends its
time-out. -/
def serve (d : UartDevice) (intval : UInt8) : UartDevice :=
  if intval = IIR_RCVR_LINE_STAT then { d with lineErrors := d.lineErrors - 1 }
  else if intval = IIR_RCV_DATA_AVAIL then
    { d with
      rx := uartHandleRecvDataFifo d.rx
      timedOut := d.timedOut && (uartHandleRecvDataFifo d.rx).fifo ≠ [] }
  else if intval = IIR_CHAR_TIMEOUT then
    { d with
      rx := uartHandleRecvDataTimeout d.rx
      timedOut := (uartHandleRecvDataTimeout d.rx).fifo ≠ [] }
  else if intval = IIR_TRSR_HOLD_EMPTY then { d with tx := uartHandleTxData d.tx }
  else if intval = IIR_MODEM_STATUS then { d with modemChanges := d.modemChanges - 1 }
  else d

/-- `uart_interrupt`, for so many passes at most; `iir` are the values that are read from
the register. -/
def uartInterrupt : Nat → (Nat → UInt8) → UartDevice → Option UartDevice
  | 0, _, _ => none
  | n + 1, iir, d =>
    if iir 0 &&& IIR_NO_INT_PEND = 0 then
      uartInterrupt n (fun k => iir (k + 1)) (d.serve (iir 0 &&& IIR_INT_MASK))
    else some (d.serve (iir 0 &&& IIR_INT_MASK))

/-- What the device may report.  Nothing is pending only below the trigger level and without a
time-out that was reported before. -/
def Reports (d : UartDevice) (retval : UInt8) : Prop :=
  if retval &&& IIR_NO_INT_PEND = 0 then
    retval &&& IIR_INT_MASK = IIR_RCVR_LINE_STAT ∧ 0 < d.lineErrors ∨
      retval &&& IIR_INT_MASK = IIR_RCV_DATA_AVAIL ∧ RX_SEQ_MAX ≤ d.rx.fifo.length ∨
      retval &&& IIR_INT_MASK = IIR_CHAR_TIMEOUT ∧ d.rx.fifo ≠ [] ∨
      retval &&& IIR_INT_MASK = IIR_TRSR_HOLD_EMPTY ∧ d.tx.etbei = true ∨
      retval &&& IIR_INT_MASK = IIR_MODEM_STATUS ∧ 0 < d.modemChanges
  else d.rx.fifo.length < RX_SEQ_MAX ∧ d.timedOut = false

/-- The device reports so for some passes of the handler. -/
def Follows : Nat → (Nat → UInt8) → UartDevice → Prop
  | 0, _, _ => True
  | n + 1, iir, d =>
    d.Reports (iir 0) ∧
      (iir 0 &&& IIR_NO_INT_PEND = 0 →
        Follows n (fun k => iir (k + 1)) (d.serve (iir 0 &&& IIR_INT_MASK)))

/-- The handler ends, whatever the device reports. -/
def Ends (d : UartDevice) : Prop :=
  ∀ iir, (∀ n, Follows n iir d) → ∃ n d', uartInterrupt n iir d = some d'

end UartDevice

variable {d : UartDevice} {tx : Transmit} {rx : Receive}

/-! ## The handlers -/

lemma Receive.Sound.storeTimes_room (n : Nat) : ∀ {rx : Receive}, rx.Sound →
    n ≤ rx.buf.ring.room → n ≤ rx.fifo.length →
    (rx.storeTimes n).buf.ring.room + n = rx.buf.ring.room ∧
      (rx.storeTimes n).fifo.length + n = rx.fifo.length := by
  induction n with
  | zero => exact fun _ _ _ => ⟨rfl, rfl⟩
  | succ n ih =>
    intro rx h hroom hfifo
    obtain ⟨hfilled, hroom', hfifo'⟩ := h.store (by omega) (by
      intro hnil
      rw [hnil] at hfifo
      exact absurd hfifo (Nat.not_succ_le_zero n))
    have hrest := ih hfilled.sound (by omega) (by omega)
    rw [Receive.storeTimes]
    omega

lemma Receive.Sound.storeWhile_room (n : Nat) : ∀ {rx : Receive}, rx.Sound →
    n ≤ rx.buf.ring.room →
    (rx.storeWhile n).buf.ring.room + min n rx.fifo.length = rx.buf.ring.room ∧
      (rx.storeWhile n).fifo.length + min n rx.fifo.length = rx.fifo.length := by
  induction n with
  | zero =>
    intro rx _ _
    rw [Nat.zero_min]
    exact ⟨rfl, rfl⟩
  | succ n ih =>
    intro rx h hroom
    rw [Receive.storeWhile]
    split
    · next hnil =>
        rw [hnil]
        exact ⟨rfl, rfl⟩
    · next hne =>
        obtain ⟨hfilled, hroom', hfifo'⟩ := h.store (by omega) hne
        have hrest := ih hfilled.sound (by omega)
        omega

/-- A time-out moves what fits. -/
lemma Receive.Sound.timeout_room (h : rx.Sound) :
    (uartHandleRecvDataTimeout rx).buf.ring.room + min rx.buf.ring.room rx.fifo.length =
        rx.buf.ring.room ∧
      (uartHandleRecvDataTimeout rx).fifo.length + min rx.buf.ring.room rx.fifo.length =
        rx.fifo.length := by
  rw [uartHandleRecvDataTimeout, h.freeSpace_eq]
  exact h.storeWhile_room _ le_rfl

/-- A receiver at its trigger level is emptied when its bytes fit. -/
lemma Receive.Sound.fifo_nil (h : rx.Sound) (hfifo : RX_SEQ_MAX ≤ rx.fifo.length)
    (hfits : rx.fifo.length ≤ rx.buf.ring.room) : (uartHandleRecvDataFifo rx).fifo = [] := by
  have hmax : RX_SEQ_MAX = 14 := rfl
  rw [uartHandleRecvDataFifo, h.freeSpace_eq, if_neg (by omega)]
  have hcount : (if RX_SEQ_MAX < rx.buf.ring.room then RX_SEQ_MAX else rx.buf.ring.room) =
      RX_SEQ_MAX := by
    split <;> omega
  rw [hcount]
  have hsound := (h.storeTimes RX_SEQ_MAX (by omega) hfifo).sound
  have hfirst := h.storeTimes_room RX_SEQ_MAX (by omega) hfifo
  dsimp only
  rw [hsound.freeSpace_eq]
  have hrest := hsound.storeWhile_room _ le_rfl
  apply List.eq_nil_of_length_eq_zero
  omega

lemma Transmit.Sound.used_sendOne (h : tx.Sound) (hused : 0 < tx.buf.ring.used) :
    tx.sendOne.buf.ring.used + 1 = tx.buf.ring.used := by
  have hmoved : tx.buf.ring.remove.settle = (tx.buf.ring.moveHead 1).settle :=
    Ring.settle_remove h.movable
  change tx.buf.ring.remove.used + 1 = _
  rw [Ring.used, hmoved]
  exact h.movable.used_moveHead (by rw [h.bufsize]; exact h.head_lt) hused

/-- The bytes in a ring that is not empty. -/
lemma Transmit.Sound.used_pos (h : tx.Sound) (htail : tx.buf.ring.tail < BUF_SIZE)
    (hempty : tx.buf.ring.isEmpty = false) : 0 < tx.buf.ring.used := by
  have hiff := (h.valid htail).isEmpty_iff
  rw [hempty] at hiff
  rw [Ring.used, (h.valid htail).settle_eq]
  simp only [Bool.false_eq_true, false_iff] at hiff
  omega

/-- A loop that leaves something in the ring has sent so many bytes. -/
lemma Transmit.Sound.sendLoop_used (n : Nat) : ∀ {tx : Transmit}, tx.Sound →
    tx.buf.ring.tail < BUF_SIZE → (Drivers.sendLoop n tx).buf.ring.isEmpty = false →
    (Drivers.sendLoop n tx).buf.ring.used + n = tx.buf.ring.used := by
  induction n with
  | zero => exact fun _ _ _ => rfl
  | succ n ih =>
    intro tx h htail hleft
    rw [sendLoop_succ] at hleft ⊢
    split at hleft
    · next hempty =>
        rw [hempty] at hleft
        cases hleft
    · next hne =>
        have hempty : tx.buf.ring.isEmpty = false := by simpa using hne
        have hused := h.used_pos htail hempty
        have hone := h.sendOne hused (of_decide_eq_false hempty)
        have hless := h.used_sendOne hused
        have hrest := ih hone.sound (by rw [hone.tail_eq]; exact htail) hleft
        rw [if_neg hne]
        omega

/-- The bytes to be sent, and that the interrupt is to be disabled. -/
def Transmit.toSend (tx : Transmit) : Nat := if tx.etbei then tx.buf.ring.used + 1 else 0

/-- What the transmit interrupt leaves to be done. -/
lemma Transmit.Sound.handler_toSend (h : tx.Sound) (htail : tx.buf.ring.tail < BUF_SIZE)
    (hon : tx.etbei = true) : (uartHandleTxData tx).toSend < tx.toSend := by
  have hbefore : tx.toSend = tx.buf.ring.used + 1 := if_pos hon
  rw [hbefore, uartHandleTxData]
  split
  · exact Nat.succ_pos _
  · next hne =>
      have hleft : (Drivers.sendLoop TX_SEQ_MAX tx).buf.ring.isEmpty = false := by
        simpa using hne
      have hsent := h.sendLoop_used TX_SEQ_MAX htail hleft
      have hmax : TX_SEQ_MAX = 16 := rfl
      rw [Transmit.toSend]
      split <;> omega

namespace UartDevice

/-! ## Passes when the pending bytes fit -/

/-- The pending bytes fit in the ring, and no writer stands at the end of the array. -/
structure Live (d : UartDevice) : Prop where
  rx : d.rx.Sound
  tx : d.tx.Sound
  fits : d.rx.fifo.length ≤ d.rx.buf.ring.room
  tail : d.tx.etbei = true → d.tx.buf.ring.tail < BUF_SIZE

/-- What is left to be done. -/
def work (d : UartDevice) : Nat :=
  d.lineErrors + d.modemChanges + d.rx.fifo.length + d.tx.toSend

/-- The step lemma: a pass leaves less to be done. -/
theorem Live.serve (h : d.Live) {retval : UInt8} (hpend : retval &&& IIR_NO_INT_PEND = 0)
    (hreports : d.Reports retval) :
    (d.serve (retval &&& IIR_INT_MASK)).Live ∧
      (d.serve (retval &&& IIR_INT_MASK)).work < d.work := by
  rw [Reports, if_pos hpend] at hreports
  rcases hreports with ⟨hint, hpos⟩ | ⟨hint, hlevel⟩ | ⟨hint, hne⟩ | ⟨hint, hon⟩ | ⟨hint, hpos⟩
  · rw [hint]
    refine ⟨⟨h.rx, h.tx, h.fits, h.tail⟩, ?_⟩
    change d.lineErrors - 1 + d.modemChanges + d.rx.fifo.length + d.tx.toSend < d.work
    rw [work]
    omega
  · rw [hint]
    have hnil := h.rx.fifo_nil hlevel h.fits
    refine ⟨⟨(h.rx.fifoHandler hlevel).sound, h.tx, ?_, h.tail⟩, ?_⟩
    · change (uartHandleRecvDataFifo d.rx).fifo.length ≤ _
      rw [hnil]
      exact Nat.zero_le _
    · change d.lineErrors + d.modemChanges + (uartHandleRecvDataFifo d.rx).fifo.length +
        d.tx.toSend < d.work
      have hmax : RX_SEQ_MAX = 14 := rfl
      rw [hnil, List.length_nil, work]
      omega
  · rw [hint]
    have hfits := h.fits
    have hmoved := h.rx.timeout_room
    have hpos := List.length_pos_iff.mpr hne
    refine ⟨⟨h.rx.timeoutHandler.sound, h.tx, ?_, h.tail⟩, ?_⟩
    · change (uartHandleRecvDataTimeout d.rx).fifo.length ≤
        (uartHandleRecvDataTimeout d.rx).buf.ring.room
      omega
    · change d.lineErrors + d.modemChanges + (uartHandleRecvDataTimeout d.rx).fifo.length +
        d.tx.toSend < d.work
      rw [work]
      omega
  · rw [hint]
    have htail := h.tail hon
    have hdrained := h.tx.handler fun hend => absurd hend htail.ne
    refine ⟨⟨h.rx, hdrained.sound, h.fits, fun _ => ?_⟩, ?_⟩
    · change (uartHandleTxData d.tx).buf.ring.tail < BUF_SIZE
      rw [hdrained.tail_eq]
      exact htail
    · change d.lineErrors + d.modemChanges + d.rx.fifo.length +
        (uartHandleTxData d.tx).toSend < d.work
      have hless := h.tx.handler_toSend htail hon
      rw [work]
      omega
  · rw [hint]
    refine ⟨⟨h.rx, h.tx, h.fits, h.tail⟩, ?_⟩
    change d.lineErrors + (d.modemChanges - 1) + d.rx.fifo.length + d.tx.toSend < d.work
    rw [work]
    omega

/-- The run lemma: less and less is left to be done. -/
lemma Live.ends (n : Nat) : ∀ {d : UartDevice}, d.Live → d.work < n →
    ∀ {iir : Nat → UInt8}, (∀ k, Follows k iir d) → ∃ d', uartInterrupt n iir d = some d' := by
  induction n with
  | zero =>
    intro d _ hwork
    omega
  | succ n ih =>
    intro d h hwork iir hfollows
    rw [uartInterrupt]
    split
    · next hpend =>
        obtain ⟨hlive, hless⟩ := h.serve hpend (hfollows 1).1
        exact ih hlive (by omega) fun k => (hfollows (k + 1)).2 hpend
    · exact ⟨_, rfl⟩

/-! ## Passes when they do not -/

/-- More bytes are pending than fit in the ring. -/
structure Flooded (d : UartDevice) : Prop where
  rx : d.rx.Sound
  pending : d.rx.buf.ring.room < d.rx.fifo.length

/-- A time-out leaves bytes pending. -/
theorem Flooded.timeout (h : d.Flooded) : (d.serve IIR_CHAR_TIMEOUT).Flooded := by
  have hover := h.pending
  have hmoved := h.rx.timeout_room
  refine ⟨h.rx.timeoutHandler.sound, ?_⟩
  change (uartHandleRecvDataTimeout d.rx).buf.ring.room <
    (uartHandleRecvDataTimeout d.rx).fifo.length
  omega

lemma Flooded.reports (h : d.Flooded) : d.Reports IIR_CHAR_TIMEOUT := by
  have hne : d.rx.fifo ≠ [] := List.length_pos_iff.mp (Nat.zero_lt_of_lt h.pending)
  exact .inr (.inr (.inl ⟨rfl, hne⟩))

/-- A writer stands at the end of the array while the transmit interrupt is enabled. -/
structure Caught (d : UartDevice) : Prop where
  bufsize : d.tx.buf.ring.bufsize = BUF_SIZE
  head_lt : d.tx.buf.ring.head < BUF_SIZE
  tail_eq : d.tx.buf.ring.tail = BUF_SIZE
  on : d.tx.etbei = true

/-- The head never meets a tail at the end of the array. -/
lemma sendLoop_caught (n : Nat) : ∀ {tx : Transmit}, tx.buf.ring.bufsize = BUF_SIZE →
    tx.buf.ring.head < BUF_SIZE → (sendLoop n tx).buf.ring.bufsize = BUF_SIZE ∧
      (sendLoop n tx).buf.ring.head < BUF_SIZE ∧
      (sendLoop n tx).buf.ring.tail = tx.buf.ring.tail ∧ (sendLoop n tx).etbei = tx.etbei := by
  induction n with
  | zero => exact fun hsize hhead => ⟨hsize, hhead, rfl, rfl⟩
  | succ n ih =>
    intro tx hsize hhead
    rw [sendLoop_succ]
    split
    · exact ⟨hsize, hhead, rfl, rfl⟩
    · have hnext : tx.sendOne.buf.ring.head < BUF_SIZE := by
        change (if tx.buf.ring.head + 1 = tx.buf.ring.bufsize then 0
          else tx.buf.ring.head + 1) < BUF_SIZE
        split <;> omega
      exact @ih tx.sendOne hsize hnext

/-- A transmit interrupt then disables nothing. -/
lemma Caught.holdEmpty (h : d.Caught) : (d.serve IIR_TRSR_HOLD_EMPTY).Caught := by
  obtain ⟨hsize, hhead, htail, hon⟩ := sendLoop_caught TX_SEQ_MAX h.bufsize h.head_lt
  have hne : (sendLoop TX_SEQ_MAX d.tx).buf.ring.isEmpty = false := by
    apply decide_eq_false
    rw [htail, h.tail_eq]
    exact hhead.ne
  have hserve : (d.serve IIR_TRSR_HOLD_EMPTY).tx = sendLoop TX_SEQ_MAX d.tx := by
    change uartHandleTxData d.tx = _
    rw [uartHandleTxData, hne]
    rfl
  constructor
  · rw [hserve]
    exact hsize
  · rw [hserve]
    exact hhead
  · rw [hserve, htail]
    exact h.tail_eq
  · rw [hserve, hon]
    exact h.on

lemma Caught.reports (h : d.Caught) : d.Reports IIR_TRSR_HOLD_EMPTY :=
  .inr (.inr (.inr (.inl ⟨rfl, h.on⟩)))

/-- A report that can be repeated keeps the handler busy for ever. -/
lemma not_ends_of_repeats {P : UartDevice → Prop} {b : UInt8}
    (hpend : b &&& IIR_NO_INT_PEND = 0) (hreports : ∀ d, P d → d.Reports b)
    (hserve : ∀ d, P d → P (d.serve (b &&& IIR_INT_MASK))) (h : P d) : ¬d.Ends := by
  have hfollows : ∀ n d, P d → Follows n (fun _ => b) d := by
    intro n
    induction n with
    | zero => exact fun _ _ => trivial
    | succ n ih => exact fun d h => ⟨hreports d h, fun _ => ih _ (hserve d h)⟩
  have hnever : ∀ n d, uartInterrupt n (fun _ => b) d = none := by
    intro n
    induction n with
    | zero => exact fun _ => rfl
    | succ n ih =>
      intro d
      rw [uartInterrupt, if_pos hpend]
      exact ih _
  intro hends
  obtain ⟨n, d', hrun⟩ := hends (fun _ => b) fun n => hfollows n d h
  rw [hnever] at hrun
  cases hrun

end UartDevice

/-- The handler ends exactly when the pending bytes fit in the receive ring and, while the
transmit interrupt is enabled, no writer stands at the end of its array. -/
theorem interrupt_ends_iff (d : UartDevice) (hrx : d.rx.Sound) (htx : d.tx.Sound) :
    d.Ends ↔ d.rx.fifo.length ≤ cbufferFreeSpace d.rx.buf.ring ∧
      (d.tx.etbei = true → d.tx.buf.ring.tail ≠ BUF_SIZE) := by
  rw [hrx.freeSpace_eq]
  constructor
  · intro hends
    constructor
    · by_contra hover
      exact UartDevice.not_ends_of_repeats (P := UartDevice.Flooded) (b := IIR_CHAR_TIMEOUT) rfl
        (fun _ h => h.reports) (fun _ h => h.timeout) ⟨hrx, Nat.not_le.mp hover⟩ hends
    · intro hon htail
      exact UartDevice.not_ends_of_repeats (P := UartDevice.Caught) rfl
        (fun _ h => h.reports) (fun _ h => h.holdEmpty) ⟨htx.bufsize, htx.head_lt, htail, hon⟩ hends
  · rintro ⟨hfits, htail⟩ iir hfollows
    have hlive : d.Live :=
      ⟨hrx, htx, hfits, fun hon => Nat.lt_of_le_of_ne htx.tail_le (htail hon)⟩
    obtain ⟨d', hrun⟩ := hlive.ends (d.work + 1) (Nat.lt_succ_self _) hfollows
    exact ⟨d.work + 1, d', hrun⟩

/-- Sixteen bytes for a ring with bytes at its end, and two to be sent. -/
theorem interrupt_ends_sixteen :
    UartDevice.Ends ⟨⟨⟨⟨1023, 1, BUF_SIZE⟩, fun _ => 0⟩, true, []⟩,
      ⟨⟨⟨1000, 1020, BUF_SIZE⟩, fun _ => 0⟩, List.replicate 16 65, []⟩, 1, 1, false⟩ :=
  (interrupt_ends_iff ⟨⟨⟨⟨1023, 1, BUF_SIZE⟩, fun _ => 0⟩, true, []⟩,
      ⟨⟨⟨1000, 1020, BUF_SIZE⟩, fun _ => 0⟩, List.replicate 16 65, []⟩, 1, 1, false⟩
    ⟨rfl, by decide, by decide⟩ ⟨rfl, by decide, by decide⟩).mpr (by decide)

/-- One byte for a full ring. -/
theorem interrupt_stuck_full :
    ¬UartDevice.Ends ⟨⟨.init BUF_SIZE, false, []⟩, ⟨⟨⟨0, 1023, BUF_SIZE⟩, fun _ => 0⟩, [65], []⟩,
      0, 0, false⟩ := by
  refine UartDevice.not_ends_of_repeats (P := UartDevice.Flooded) (b := IIR_CHAR_TIMEOUT) rfl
    (fun _ h => h.reports) (fun _ h => h.timeout) ⟨⟨rfl, by decide, by decide⟩, ?_⟩
  decide

end DiegOS.Drivers
