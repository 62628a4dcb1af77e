import DiegOS.Drivers.PollCalls
import DiegOS.Drivers.UartReceive

/-!
# Readiness of the UART

What `uart_poll` reports, and whether a `uart_read` or `uart_write` that starts on
the same rings goes to sleep before it has moved a byte.

Main results:

- Theorem `ReadCall.waits_iff`, Theorem `WriteCall.waits_iff`: when the calls wait.
- Theorem `poll_agrees_iff`: when the reports agree with the calls.
-/

namespace DiegOS.Drivers

open Lib (Ring)

def POLLIN : UInt16 := 1

def POLLOUT : UInt16 := 64

/-- `uart_poll` without the registration in the poll table. -/
def Uart.poll (u : Uart) (unitno : Nat) : UInt16 :=
  if unitno = 0 then u.rxEvents ||| u.txEvents else 0

/-- The call of `uart_write`, run alone, goes to sleep within so many statements and before
it copies a byte to the ring. -/
def WriteCall.waitsWithin : Nat → Transmit → WriteCall → Bool
  | 0, _, _ => false
  | n + 1, tx, c =>
    match c.pc with
    | .ioWait => true
    | .copy _ _ => false
    | .finished => false
    | _ => waitsWithin n (c.step tx).1 (c.step tx).2

/-- The call of `uart_read`, run alone, goes to sleep within so many statements and before
it copies a byte to the caller. -/
def ReadCall.waitsWithin : Nat → Receive → ReadCall → Bool
  | 0, _, _ => false
  | n + 1, rx, c =>
    match c.pc with
    | .ioWait => true
    | .copy _ _ _ => false
    | .finished => false
    | _ => waitsWithin n (c.step rx).1 (c.step rx).2

/-- A `uart_write` of the buffer would wait before it accepts a byte. -/
def Uart.writeWaits (u : Uart) (buf : List UInt8) : Prop :=
  ∃ c n, uartWrite (some buf) 0 = .inl c ∧ c.waitsWithin n u.tx = true

/-- A `uart_read` of so many bytes would wait. -/
def Uart.readWaits (u : Uart) (bytes : Nat) : Prop :=
  ∃ c n, uartRead true bytes 0 = .inl c ∧ c.waitsWithin n u.rx = true

/-- `uart_poll` reports `POLLIN` when a read would not wait, and `POLLOUT` when a
write would not wait. -/
def Uart.Agrees (u : Uart) : Prop :=
  (∀ bytes, bytes ≠ 0 → (u.poll 0 &&& POLLIN ≠ 0 ↔ ¬u.readWaits bytes)) ∧
    ∀ buf, buf ≠ [] → (u.poll 0 &&& POLLOUT ≠ 0 ↔ ¬u.writeWaits buf)

/-- Statements between the waiting loop and the copy. -/
def WritePc.behindWait : WritePc → Bool
  | .spaceTest | .spaceReturn _ | .trim _ | .wrapTest _ | .wrapAssign | .copy _ _ => true
  | _ => false

/-- Statements between the waiting loop and the copy. -/
def ReadPc.behindWait : ReadPc → Bool
  | .useTest | .useReturn _ | .trim _ | .wrapTest | .copy _ _ _ => true
  | _ => false

variable {u : Uart} {tx : Transmit} {rx : Receive}

/-! ## The calls -/

/-- Behind its waiting loop a write does not wait before it copies. -/
lemma WriteCall.waitsWithin_behind (n : Nat) :
    ∀ {c : WriteCall}, c.pc.behindWait = true → c.waitsWithin n tx = false := by
  induction n with
  | zero => exact fun _ => rfl
  | succ n ih =>
    rintro ⟨pc, buf, bytes, retval, whole⟩ hpc
    cases pc with
    | spaceTest => exact ih (c := ⟨.spaceReturn _, buf, bytes, retval, whole⟩) rfl
    | spaceReturn below => exact ih (c := ⟨.trim _, buf, bytes, retval, whole⟩) rfl
    | trim bufferSpace => exact ih (c := ⟨.wrapTest _, buf, bytes, retval, whole⟩) rfl
    | wrapTest copyBytes =>
      simp only [waitsWithin, WriteCall.step]
      split <;> exact ih rfl
    | wrapAssign => exact ih (c := ⟨.copy _ 0, buf, bytes, retval, whole⟩) rfl
    | copy copyBytes done => rfl
    | _ => cases hpc

lemma WriteCall.waitsWithin_start (n : Nat) (buf : List UInt8) :
    WriteCall.waitsWithin (n + 2) tx ⟨.waitTest, buf, buf.length, 0, buf⟩ =
      WriteCall.waitsWithin n tx
        ⟨if cbufferFreeSpace tx.buf.ring < TX_SEQ_MAX then .ioWait else .spaceTest,
          buf, buf.length, 0, buf⟩ := rfl

theorem WriteCall.waits_iff (buf : List UInt8) :
    (∃ n, WriteCall.waitsWithin n tx ⟨.waitTest, buf, buf.length, 0, buf⟩ = true) ↔
      cbufferFreeSpace tx.buf.ring < TX_SEQ_MAX := by
  by_cases hfull : cbufferFreeSpace tx.buf.ring < TX_SEQ_MAX
  · refine iff_of_true ⟨3, ?_⟩ hfull
    rw [waitsWithin_start, if_pos hfull]
    rfl
  · refine iff_of_false ?_ hfull
    rintro ⟨n, hn⟩
    rcases n with _ | _ | n
    · contradiction
    · contradiction
    · rw [waitsWithin_start, if_neg hfull, waitsWithin_behind n rfl] at hn
      contradiction

/-- Behind its waiting loop a read does not wait. -/
lemma ReadCall.waitsWithin_behind (n : Nat) :
    ∀ {c : ReadCall}, c.pc.behindWait = true → c.waitsWithin n rx = false := by
  induction n with
  | zero => exact fun _ => rfl
  | succ n ih =>
    rintro ⟨pc, bytes, ret, dest⟩ hpc
    cases pc with
    | useTest => exact ih (c := ⟨.useReturn _, bytes, ret, dest⟩) rfl
    | useReturn below => exact ih (c := ⟨.trim _, bytes, ret, dest⟩) rfl
    | trim copyBytes => exact ih (c := ⟨.wrapTest, bytes, _, dest⟩) rfl
    | wrapTest =>
      simp only [waitsWithin, ReadCall.step]
      split <;> exact ih rfl
    | copy n done rest => rfl
    | _ => cases hpc

theorem ReadCall.waits_iff (bytes : Nat) :
    (∃ n, ReadCall.waitsWithin n rx ⟨.emptyTest, bytes, 0, []⟩ = true) ↔
      rx.buf.ring.isEmpty = true := by
  cases hempty : rx.buf.ring.isEmpty with
  | true =>
    refine iff_of_true ⟨2, ?_⟩ rfl
    simp only [waitsWithin, ReadCall.step, if_pos hempty]
  | false =>
    refine iff_of_false ?_ Bool.false_ne_true
    rintro ⟨n, hn⟩
    cases n with
    | zero => contradiction
    | succ n =>
      simp only [waitsWithin, ReadCall.step, hempty] at hn
      rw [waitsWithin_behind n rfl] at hn
      contradiction

lemma Uart.readWaits_iff {bytes : Nat} (hbytes : bytes ≠ 0) :
    u.readWaits bytes ↔ u.rx.buf.ring.isEmpty = true := by
  have hstart : uartRead true bytes 0 = .inl ⟨.emptyTest, bytes, 0, []⟩ := if_neg hbytes
  rw [← ReadCall.waits_iff bytes]
  constructor
  · rintro ⟨c, n, hc, hn⟩
    cases hstart.symm.trans hc
    exact ⟨n, hn⟩
  · rintro ⟨n, hn⟩
    exact ⟨_, n, hstart, hn⟩

lemma Uart.writeWaits_iff {buf : List UInt8} (hbuf : buf ≠ []) :
    u.writeWaits buf ↔ cbufferFreeSpace u.tx.buf.ring < TX_SEQ_MAX := by
  have hstart : uartWrite (some buf) 0 = .inl ⟨.waitTest, buf, buf.length, 0, buf⟩ :=
    if_neg (mt List.length_eq_zero_iff.mp hbuf)
  rw [← WriteCall.waits_iff buf]
  constructor
  · rintro ⟨c, n, hc, hn⟩
    cases hstart.symm.trans hc
    exact ⟨n, hn⟩
  · rintro ⟨n, hn⟩
    exact ⟨_, n, hstart, hn⟩

/-! ## The reports -/

lemma Uart.poll_in : u.poll 0 &&& POLLIN ≠ 0 ↔ u.rx.buf.ring.isEmpty = false := by
  simp only [Uart.poll, Uart.rxEvents, Uart.txEvents]
  cases u.rx.buf.ring.isEmpty <;> cases u.tx.buf.ring.isEmpty <;> decide

lemma Uart.poll_out : u.poll 0 &&& POLLOUT ≠ 0 ↔ u.tx.buf.ring.isEmpty = false := by
  simp only [Uart.poll, Uart.rxEvents, Uart.txEvents]
  cases u.rx.buf.ring.isEmpty <;> cases u.tx.buf.ring.isEmpty <;> decide

/-- The bytes in the transmit ring, also before the tail comes around. -/
lemma Transmit.Sound.used_cases (h : tx.Sound)
    (hroom : tx.buf.ring.tail < tx.buf.ring.head + BUF_SIZE) :
    tx.buf.ring.head ≤ tx.buf.ring.tail ∧
        tx.buf.ring.used = tx.buf.ring.tail - tx.buf.ring.head ∨
      tx.buf.ring.tail < tx.buf.ring.head ∧
        tx.buf.ring.used = BUF_SIZE - tx.buf.ring.head + tx.buf.ring.tail := by
  have hle := h.tail_le
  have hlt := h.head_lt
  rcases Nat.lt_or_ge tx.buf.ring.tail BUF_SIZE with htail | htail
  · have hcases := tx.buf.ring.inUse_cases
    rw [h.bufsize] at hcases
    rwa [Ring.used, (h.valid htail).settle_eq]
  · have hend : tx.buf.ring.tail = BUF_SIZE := Nat.le_antisymm hle htail
    rw [h.used_end hend (by omega), hend]
    omega

/-- A write waits with more than 1007 bytes in the ring. -/
lemma Transmit.Sound.freeSpace_lt_iff (h : tx.Sound)
    (hroom : tx.buf.ring.tail < tx.buf.ring.head + BUF_SIZE) :
    cbufferFreeSpace tx.buf.ring < TX_SEQ_MAX ↔ 1007 < tx.buf.ring.used := by
  have hused := h.used_cases hroom
  have hlt := h.head_lt
  have hle := h.tail_le
  have hbuf : BUF_SIZE = 1024 := rfl
  have hseq : TX_SEQ_MAX = 16 := rfl
  rw [cbufferFreeSpace, freeSpaceReturn, h.bufsize]
  by_cases hbelow : tx.buf.ring.head ≤ tx.buf.ring.tail
  · rw [if_pos (decide_eq_true hbelow), toUnsigned_eq (by omega) (by omega)]
    omega
  · rw [if_neg (by simpa using hbelow), toUnsigned_eq (by omega) (by omega)]
    omega

lemma Transmit.Sound.isEmpty_iff (h : tx.Sound)
    (hroom : tx.buf.ring.tail < tx.buf.ring.head + BUF_SIZE) :
    tx.buf.ring.isEmpty = true ↔ tx.buf.ring.used = 0 := by
  have hused := h.used_cases hroom
  have hlt := h.head_lt
  rw [Ring.isEmpty, decide_eq_true_iff]
  omega

/-- The reports of `uart_poll` agree with the calls exactly when the transmit ring holds
between 1 and 1007 bytes. -/
theorem poll_agrees_iff (u : Uart) (htx : u.tx.Sound)
    (hroom : u.tx.buf.ring.tail < u.tx.buf.ring.head + BUF_SIZE) :
    u.Agrees ↔ 1 ≤ u.tx.buf.ring.used ∧ u.tx.buf.ring.used ≤ 1007 := by
  have hempty := htx.isEmpty_iff hroom
  have hwait := htx.freeSpace_lt_iff hroom
  have hreads : ∀ bytes, bytes ≠ 0 → (u.poll 0 &&& POLLIN ≠ 0 ↔ ¬u.readWaits bytes) := by
    intro bytes hbytes
    rw [Uart.poll_in, Uart.readWaits_iff hbytes, Bool.not_eq_true]
  have hwrites : (∀ buf, buf ≠ [] → (u.poll 0 &&& POLLOUT ≠ 0 ↔ ¬u.writeWaits buf)) ↔
      (u.tx.buf.ring.used ≠ 0 ↔ u.tx.buf.ring.used ≤ 1007) := by
    constructor
    · intro hall
      have hone := hall [0] (List.cons_ne_nil _ _)
      rw [Uart.poll_out, Uart.writeWaits_iff (List.cons_ne_nil _ _), hwait, ← Bool.not_eq_true,
        hempty] at hone
      omega
    · intro hiff buf hbuf
      rw [Uart.poll_out, Uart.writeWaits_iff hbuf, hwait, ← Bool.not_eq_true, hempty]
      omega
  rw [Uart.Agrees, hwrites]
  constructor
  · rintro ⟨-, hiff⟩
    omega
  · intro hrange
    exact ⟨hreads, by omega⟩

/-- Five bytes wait to be sent. -/
theorem poll_agrees_five :
    Uart.Agrees ⟨⟨⟨⟨1020, 1, BUF_SIZE⟩, fun _ => 0⟩, true, []⟩, ⟨.init BUF_SIZE, [], []⟩⟩ :=
  (poll_agrees_iff ⟨⟨⟨⟨1020, 1, BUF_SIZE⟩, fun _ => 0⟩, true, []⟩, ⟨.init BUF_SIZE, [], []⟩⟩
    ⟨rfl, by decide, by decide⟩ (by decide)).mpr (by decide)

/-- Right after `uart_start` a write does not wait, and `uart_poll` reports nothing. -/
theorem poll_wrong_start : ¬Uart.Agrees PollSystem.start.uart := by
  rintro ⟨-, hwrites⟩
  have hone := hwrites [65] (List.cons_ne_nil _ _)
  rw [Uart.poll_out, Uart.writeWaits_iff (List.cons_ne_nil _ _)] at hone
  revert hone
  decide

end DiegOS.Drivers
