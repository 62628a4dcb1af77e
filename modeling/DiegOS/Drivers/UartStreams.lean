import DiegOS.Drivers.UartReceive

/-!
# UART streams

One thread writes to the UART and one reads from it, in any interleaving with the interrupts.
The bytes arrive in order, none lost or repeated, unless an interrupt falls inside the inline
functions of `cbuffers.h` where the ring wraps around.

Main results:

- Theorem `Written.step`, Theorem `Received.step`: each step keeps the accounts of the
  two directions.
- Theorem `uart_streams`: the streams are faithful in every run without such an interrupt.
- Theorem `uart_streams_broken`: an interrupt between the two statements of
  `cbuffer_add_n` sends bytes nobody wrote.
-/

namespace DiegOS.Drivers

open Function

open Lib (Ring PartialRuns checkedRun)

variable {s s' : Machine} {a : Action} {w r : Nat}

/-- One thread writes and one thread reads. -/
def OneEach (w r : Nat) : Action → Prop
  | .uartWrite t _ _ => t = w
  | .uartRead t _ _ _ => t = r
  | _ => True

/-- The next statement does not go on with a position that has come around. -/
def Call.Calm (tx : Transmit) (rx : Receive) : Call → Prop
  | .write c => c.Calm tx
  | .read c => c.Calm rx
  | _ => True

/-- A write is shorter than the largest `int`, and no interrupt makes a position come around
inside `cbuffer_add_n`, `cbuffer_free_space` or `cbuffer_in_use`. -/
def Calm (s : Machine) : Action → Prop
  | .uartWrite _ (some whole) unitno => unitno = 0 → whole.length < 2 ^ 31
  | .statement t => (s.call t).Calm s.tx s.rx
  | .txHoldEmpty => s.tx.Calm
  | _ => True

/-- The bytes returned by the finished calls of `uart_read`. -/
def Machine.returned (s : Machine) : List UInt8 := (s.taken.map Prod.fst).flatten

/-- What goes in at one end comes out at the other. -/
structure Machine.Faithful (s : Machine) : Prop where
  sent_prefix : s.tx.sent <+: s.asked
  sent_all : (∀ t c, s.call t ≠ .write c) → s.tx.buf.ring.isEmpty → s.tx.sent = s.asked
  full_length : ∀ answer ∈ s.written, answer.2 = answer.1.length
  received_eq : s.received = s.rx.fates.map Fate.byte ++ s.rx.fifo
  dropped_full : ∀ b freeSpace, .dropped b freeSpace ∈ s.rx.fates → freeSpace = 0
  returned_prefix : s.returned <+: s.rx.kept
  returned_all : (∀ t c, s.call t ≠ .read c) → s.rx.buf.ring.isEmpty → s.returned = s.rx.kept
  returned_length : ∀ answer ∈ s.taken, answer.2 = answer.1.length

/-- One call is changed and the others are as before. -/
lemma Machine.setCall_like {R : Call → Call → Prop} (hrefl : ∀ c, R c c) {t : Nat} {c c' : Call}
    (hcall : s.call t = c) (hlike : R c c') (u : Nat) : R (s.call u) ((s.setCall t c').call u) := by
  rw [Machine.setCall]
  by_cases hu : u = t
  · subst hu
    simp only [update_self, hcall]
    exact hlike
  · simp only [update_of_ne hu]
    exact hrefl _

/-- A thread that is the only one in some call is so with its own call changed. -/
lemma Machine.setCall_only {t u : Nat} {c c' : Call} (honly : ∀ u, s.call u = c → u = t)
    (h : (s.setCall t c').call u = c) : u = t := by
  by_cases hu : u = t
  · exact hu
  · simp only [Machine.setCall, update_of_ne hu] at h
    exact honly u h

/-! ## The written bytes -/

/-- What a call has left to write. -/
def Call.left : Call → List UInt8
  | .write c => c.left
  | _ => []

/-- The ring as the writer's call has it. -/
def Call.Writes (tx : Transmit) : Call → Prop
  | .write c => c.Ok tx
  | _ => tx.Sound ∧ tx.buf.ring.tail < BUF_SIZE

/-- The accounts of the transmitter. -/
structure Written (w : Nat) (s : Machine) : Prop where
  only : ∀ t c, s.call t = .write c → t = w
  ok : (s.call w).Writes s.tx
  account : s.tx.sent ++ s.tx.buf.items ++ (s.call w).left = s.asked
  answers : ∀ answer ∈ s.written, answer.2 = answer.1.length

/-- A call that is a write only where the other one is. -/
structure Call.WritesLike (c c' : Call) : Prop where
  write : ∀ d, c' = .write d → ∃ e, c = .write e
  ok : ∀ {tx}, c.Writes tx → c'.Writes tx
  left : c'.left = c.left

lemma Call.WritesLike.refl (c : Call) : c.WritesLike c :=
  ⟨fun d h => ⟨d, h⟩, id, rfl⟩

/-- No write before and none after. -/
lemma Call.WritesLike.none {c c' : Call} (h : ∀ d, c ≠ .write d) (h' : ∀ d, c' ≠ .write d) :
    c.WritesLike c' := by
  cases c with
  | write d => exact absurd rfl (h d)
  | _ =>
    cases c' with
    | write d => exact absurd rfl (h' d)
    | _ => exact ⟨fun d hd => (h' d hd).elim, id, rfl⟩

/-- Going to sleep and testing again leave the accounts. -/
lemma Call.WritesLike.pc {c : WriteCall} {pc : WritePc}
    (hpc : c.pc = .ioWait ∨ c.pc = .asleep) (hpc' : pc = .asleep ∨ pc = .waitTest) :
    (Call.write c).WritesLike (.write { c with pc := pc }) := by
  obtain ⟨pc₀, buf, bytes, retval, whole⟩ := c
  refine ⟨fun d _ => ⟨_, rfl⟩, fun h => ⟨h.sound, ?_, h.bytes_eq, h.retval_nonneg, h.retval_eq,
    h.short⟩, ?_⟩
  · have hknows := h.knows
    rcases hpc with rfl | rfl <;> rcases hpc' with rfl | rfl <;> exact hknows
  · rcases hpc with rfl | rfl <;> rcases hpc' with rfl | rfl <;> rfl

lemma Call.WritesLike.sleep {c : Call} {q : WaitQueue} (h : c.waitsOn = some q) :
    c.WritesLike c.sleep := by
  cases c with
  | write c =>
    apply Call.WritesLike.pc _ (.inl rfl)
    obtain ⟨pc, buf, bytes, retval, whole⟩ := c
    cases pc with
    | ioWait => exact .inl rfl
    | _ => cases h
  | _ => exact Call.WritesLike.none (fun d hd => by cases hd) (fun d hd => by cases hd)

lemma Call.WritesLike.retry {c : Call} {q : WaitQueue}
    (h : c.waitsOn = some q ∨ c.sleepsOn = some q) : c.WritesLike c.retry := by
  cases c with
  | write c =>
    apply Call.WritesLike.pc _ (.inr rfl)
    obtain ⟨pc, buf, bytes, retval, whole⟩ := c
    cases pc with
    | ioWait => exact .inl rfl
    | asleep => exact .inr rfl
    | _ => rcases h with h | h <;> cases h
  | _ => exact Call.WritesLike.none (fun d hd => by cases hd) (fun d hd => by cases hd)

namespace Written

/-- What concerns no writer. -/
lemma frame (h : Written w s) (htx : s'.tx = s.tx) (hasked : s'.asked = s.asked)
    (hwritten : s'.written = s.written) (hcall : ∀ t, (s.call t).WritesLike (s'.call t)) :
    Written w s' := by
  refine ⟨fun t c hc => ?_, ?_, ?_, ?_⟩
  · obtain ⟨e, he⟩ := (hcall t).write c hc
    exact h.only t e he
  · rw [htx]
    exact (hcall w).ok h.ok
  · rw [htx, hasked, (hcall w).left]
    exact h.account
  · rw [hwritten]
    exact h.answers

lemma sound (h : Written w s) : s.tx.Sound := by
  have hok := h.ok
  cases hcall : s.call w with
  | write c =>
    rw [hcall] at hok
    exact hok.sound
  | _ =>
    rw [hcall] at hok
    exact hok.1

/-- Each step keeps the accounts of the transmitter. -/
theorem step (h : Written w s) (hone : OneEach w r a) (hcalm : Calm s a) (hstep : s.Step a s') :
    Written w s' := by
  cases hstep with
  | refused hother => exact h
  | @startWrite t whole hidle hne =>
    obtain rfl : t = w := hone
    have hok := h.ok
    have haccount := h.account
    rw [hidle] at hok haccount
    refine ⟨fun u c hc => Machine.setCall_only (fun u => h.only u c) hc, ?_, ?_, h.answers⟩
    · simp only [Machine.setCall, update_self]
      exact ⟨hok.1, hok.2, rfl, le_rfl, by simp, hcalm rfl⟩
    · simp only [Machine.setCall, update_self]
      rw [← haccount]
      simp only [Call.left, List.append_nil]
      rfl
  | @startRead t bytes hidle | @startKbd t bytes hidle =>
    exact h.frame rfl rfl rfl (Machine.setCall_like .refl hidle
      (Call.WritesLike.none (fun d hd => by cases hd) (fun d hd => by cases hd)))
  | @sleep t q hwaits =>
    exact h.frame rfl rfl rfl (Machine.setCall_like .refl rfl
      (Call.WritesLike.sleep hwaits))
  | @write t c hcall hwait hasleep hlast =>
    obtain rfl : t = w := h.only t c hcall
    have hok := h.ok
    have haccount := h.account
    rw [hcall] at hok haccount
    simp only [Calm, hcall, Call.Calm] at hcalm
    obtain ⟨hnext, hkept⟩ := WriteCall.Ok.step hok hcalm
    refine ⟨fun u d hd => Machine.setCall_only (fun u => h.only u d) hd, ?_, ?_, h.answers⟩
    · simp only [Machine.setCall, update_self]
      exact hnext
    · simp only [Machine.setCall, update_self]
      exact hkept.trans haccount
  | @writeDone t c hcall hlast =>
    obtain rfl : t = w := h.only t c hcall
    have hok := h.ok
    have haccount := h.account
    rw [hcall] at hok haccount
    have hknows := hok.knows
    simp only [WriteCall.Knows, hlast] at hknows
    have hnil : c.buf = [] := List.length_eq_zero_iff.mp (hok.bytes_eq.symm.trans hknows.1)
    have hretval : c.retval = c.whole.length := by simpa [hnil] using hok.retval_eq
    refine ⟨fun u d hd => Machine.setCall_only (fun u => h.only u d) hd, ?_, ?_, ?_⟩
    · simp only [Machine.setCall, update_self]
      exact ⟨hok.sound, hknows.2⟩
    · simp only [Machine.setCall, update_self]
      rw [← haccount]
      simp only [Call.left, WriteCall.left, hlast, hnil]
    · intro answer hanswer
      rcases List.mem_append.mp hanswer with hold | hnew
      · exact h.answers answer hold
      · rw [List.mem_singleton.mp hnew]
        exact hretval
  | @read t c hcall hwait hasleep hlast | @readDone t c hcall hlast
  | @kbd t c hcall hwait hasleep hlast | @kbdDone t c hcall hlast =>
    exact h.frame rfl rfl rfl (Machine.setCall_like .refl hcall
      (Call.WritesLike.none (fun d hd => by cases hd) (fun d hd => by cases hd)))
  | @noItem t q hwaits =>
    exact h.frame rfl rfl rfl (Machine.setCall_like .refl rfl
      (Call.WritesLike.retry (.inl hwaits)))
  | resume =>
    refine h.frame rfl rfl rfl fun t => ?_
    simp only [Machine.resumeOnIoWait]
    split
    · next hwoken =>
        obtain ⟨q, hq⟩ := Option.ne_none_iff_exists'.mp hwoken.2
        exact Call.WritesLike.retry (.inr hq)
    · exact Call.WritesLike.refl _
  | txHoldEmpty hon =>
    have hd := h.sound.handler hcalm
    refine ⟨h.only, ?_, ?_, h.answers⟩
    · change (s.call w).Writes (uartHandleTxData s.tx)
      have hok := h.ok
      cases hcall : s.call w with
      | write c =>
        rw [hcall] at hok
        exact WriteCall.Ok.drained hok hd
      | _ =>
        rw [hcall] at hok
        exact ⟨hd.sound, by rw [hd.tail_eq]; exact hok.2⟩
    · change (uartHandleTxData s.tx).sent ++ (uartHandleTxData s.tx).buf.items ++ _ = _
      rw [hd.account]
      exact h.account
  | receive | recvDataAvail | charTimeout | keyboard =>
    exact h.frame rfl rfl rfl fun t => Call.WritesLike.refl _

end Written

/-! ## The received bytes -/

/-- What a call has copied to its caller. -/
def Call.got : Call → List UInt8
  | .read c => c.dest
  | _ => []

/-- The bytes copied that are still in the ring. -/
def Call.copied : Call → Nat
  | .read c => c.copied
  | _ => 0

/-- The ring as the reader's call has it. -/
def Call.Reads (rx : Receive) : Call → Prop
  | .read c => c.Ok rx
  | _ => rx.Sound ∧ rx.buf.ring.head < BUF_SIZE

/-- The accounts of the receiver. -/
structure Received (r : Nat) (s : Machine) : Prop where
  only : ∀ t c, s.call t = .read c → t = r
  ok : (s.call r).Reads s.rx
  account : s.returned ++ (s.call r).got ++ s.rx.buf.items.drop (s.call r).copied = s.rx.kept
  device : s.received = s.rx.fates.map Fate.byte ++ s.rx.fifo
  fair : ∀ f ∈ s.rx.fates, f.Fair
  answers : ∀ answer ∈ s.taken, answer.2 = answer.1.length

/-- A call that is a read only where the other one is. -/
structure Call.ReadsLike (c c' : Call) : Prop where
  read : ∀ d, c' = .read d → ∃ e, c = .read e
  ok : ∀ {rx}, c.Reads rx → c'.Reads rx
  got : c'.got = c.got
  copied : c'.copied = c.copied

lemma Call.ReadsLike.refl (c : Call) : c.ReadsLike c :=
  ⟨fun d h => ⟨d, h⟩, id, rfl, rfl⟩

/-- No read before and none after. -/
lemma Call.ReadsLike.none {c c' : Call} (h : ∀ d, c ≠ .read d) (h' : ∀ d, c' ≠ .read d) :
    c.ReadsLike c' := by
  cases c with
  | read d => exact absurd rfl (h d)
  | _ =>
    cases c' with
    | read d => exact absurd rfl (h' d)
    | _ => exact ⟨fun d hd => (h' d hd).elim, id, rfl, rfl⟩

/-- Going to sleep and testing again leave the accounts. -/
lemma Call.ReadsLike.pc {c : ReadCall} {pc : ReadPc}
    (hpc : c.pc = .ioWait ∨ c.pc = .asleep) (hpc' : pc = .asleep ∨ pc = .emptyTest) :
    (Call.read c).ReadsLike (.read { c with pc := pc }) := by
  obtain ⟨pc₀, bytes, ret, dest⟩ := c
  refine ⟨fun d _ => ⟨_, rfl⟩, fun h => ⟨h.sound, ?_⟩, rfl, ?_⟩
  · have hknows := h.knows
    rcases hpc with rfl | rfl <;> rcases hpc' with rfl | rfl <;> exact hknows
  · rcases hpc with rfl | rfl <;> rcases hpc' with rfl | rfl <;> rfl

lemma Call.ReadsLike.sleep {c : Call} {q : WaitQueue} (h : c.waitsOn = some q) :
    c.ReadsLike c.sleep := by
  cases c with
  | read c =>
    apply Call.ReadsLike.pc _ (.inl rfl)
    obtain ⟨pc, bytes, ret, dest⟩ := c
    cases pc with
    | ioWait => exact .inl rfl
    | _ => cases h
  | _ => exact Call.ReadsLike.none (fun d hd => by cases hd) (fun d hd => by cases hd)

lemma Call.ReadsLike.retry {c : Call} {q : WaitQueue}
    (h : c.waitsOn = some q ∨ c.sleepsOn = some q) : c.ReadsLike c.retry := by
  cases c with
  | read c =>
    apply Call.ReadsLike.pc _ (.inr rfl)
    obtain ⟨pc, bytes, ret, dest⟩ := c
    cases pc with
    | ioWait => exact .inl rfl
    | asleep => exact .inr rfl
    | _ => rcases h with h | h <;> cases h
  | _ => exact Call.ReadsLike.none (fun d hd => by cases hd) (fun d hd => by cases hd)

namespace Received

variable (h : Received r s)
include h

/-- What concerns no reader. -/
lemma frame (hrx : s'.rx = s.rx) (hreceived : s'.received = s.received)
    (htaken : s'.taken = s.taken) (hcall : ∀ t, (s.call t).ReadsLike (s'.call t)) :
    Received r s' := by
  refine ⟨fun t c hc => ?_, ?_, ?_, ?_, ?_, ?_⟩
  · obtain ⟨e, he⟩ := (hcall t).read c hc
    exact h.only t e he
  · rw [hrx]
    exact (hcall r).ok h.ok
  · rw [hrx, Machine.returned, htaken, (hcall r).got, (hcall r).copied]
    exact h.account
  · rw [hrx, hreceived]
    exact h.device
  · rw [hrx]
    exact h.fair
  · rw [htaken]
    exact h.answers

lemma sound : s.rx.Sound := by
  have hok := h.ok
  cases hcall : s.call r with
  | read c =>
    rw [hcall] at hok
    exact hok.sound
  | _ =>
    rw [hcall] at hok
    exact hok.1

lemma copied_le : (s.call r).copied ≤ s.rx.buf.ring.used := by
  have hok := h.ok
  cases hcall : s.call r with
  | read c =>
    rw [hcall] at hok
    exact ReadCall.Ok.copied_le hok
  | _ => exact Nat.zero_le _

/-- A receive interrupt brings new bytes behind those in the ring. -/
lemma filled {rx' : Receive} (hf : Filled s.rx rx') (q : WaitQueue) :
    Received r ({ s with rx := rx' }.threadIoResume q) := by
  refine ⟨h.only, ?_, ?_, ?_, hf.fair h.fair, h.answers⟩
  · change (s.call r).Reads rx'
    have hok := h.ok
    cases hcall : s.call r with
    | read c =>
      rw [hcall] at hok
      exact ReadCall.Ok.filled hok hf
    | _ =>
      rw [hcall] at hok
      exact ⟨hf.sound, by rw [hf.head_eq]; exact hok.2⟩
  · obtain ⟨new, hitems, hkept⟩ := hf.items_drop h.copied_le
    change s.returned ++ (s.call r).got ++ rx'.buf.items.drop (s.call r).copied = rx'.kept
    rw [hitems, hkept, ← List.append_assoc, h.account]
  · change s.received = rx'.fates.map Fate.byte ++ rx'.fifo
    rw [hf.bytes_eq]
    exact h.device

/-- Each step keeps the accounts of the receiver. -/
theorem step (hone : OneEach w r a) (hcalm : Calm s a) (hstep : s.Step a s') :
    Received r s' := by
  cases hstep with
  | refused hother => exact h
  | @startWrite t whole hidle hne | @startKbd t bytes hidle =>
    exact h.frame rfl rfl rfl (Machine.setCall_like .refl hidle
      (Call.ReadsLike.none (fun d hd => by cases hd) (fun d hd => by cases hd)))
  | @startRead t bytes hidle =>
    obtain rfl : t = r := hone
    have hok := h.ok
    have haccount := h.account
    rw [hidle] at hok haccount
    refine ⟨fun u c hc => Machine.setCall_only (fun u => h.only u c) hc, ?_, ?_, h.device, h.fair,
      h.answers⟩
    · simp only [Machine.setCall, update_self]
      exact ⟨hok.1, hok.2, rfl⟩
    · simp only [Machine.setCall, update_self]
      exact haccount
  | @sleep t q hwaits =>
    exact h.frame rfl rfl rfl (Machine.setCall_like .refl rfl (Call.ReadsLike.sleep hwaits))
  | @write t c hcall hwait hasleep hlast | @writeDone t c hcall hlast
  | @kbd t c hcall hwait hasleep hlast | @kbdDone t c hcall hlast =>
    exact h.frame rfl rfl rfl (Machine.setCall_like .refl hcall
      (Call.ReadsLike.none (fun d hd => by cases hd) (fun d hd => by cases hd)))
  | @read t c hcall hwait hasleep hlast =>
    obtain rfl : t = r := h.only t c hcall
    have hok := h.ok
    have haccount := h.account
    rw [hcall] at hok haccount
    simp only [Calm, hcall, Call.Calm] at hcalm
    have hkept := ReadCall.Ok.step hok hcalm
    refine ⟨fun u d hd => Machine.setCall_only (fun u => h.only u d) hd, ?_, ?_, ?_, ?_, h.answers⟩
    · simp only [Machine.setCall, update_self]
      exact hkept.ok
    · simp only [Machine.setCall, update_self, Receive.kept]
      rw [hkept.fates_eq]
      refine Eq.trans ?_ haccount
      rw [List.append_assoc, List.append_assoc]
      exact congrArg _ hkept.account
    · simp only [hkept.fates_eq, hkept.fifo_eq]
      exact h.device
    · simp only [hkept.fates_eq]
      exact h.fair
  | @readDone t c hcall hlast =>
    obtain rfl : t = r := h.only t c hcall
    have hok := h.ok
    have haccount := h.account
    rw [hcall] at hok haccount
    have hknows := hok.knows
    simp only [ReadCall.Knows, hlast] at hknows
    refine ⟨fun u d hd => Machine.setCall_only (fun u => h.only u d) hd, ?_, ?_,
      h.device, h.fair, ?_⟩
    · simp only [Machine.setCall, update_self]
      exact ⟨hok.sound, hknows.1⟩
    · simp only [Machine.setCall, update_self, Machine.returned, List.map_append,
        List.flatten_append, Call.got, Call.copied, List.append_nil]
      simpa [Machine.returned, Call.got, Call.copied, ReadCall.copied, hlast] using haccount
    · intro answer hanswer
      rcases List.mem_append.mp hanswer with hold | hnew
      · exact h.answers answer hold
      · rw [List.mem_singleton.mp hnew]
        exact hknows.2.symm
  | @noItem t q hwaits =>
    exact h.frame rfl rfl rfl (Machine.setCall_like .refl rfl
      (Call.ReadsLike.retry (.inl hwaits)))
  | resume =>
    refine h.frame rfl rfl rfl fun t => ?_
    simp only [Machine.resumeOnIoWait]
    split
    · next hwoken =>
        obtain ⟨q, hq⟩ := Option.ne_none_iff_exists'.mp hwoken.2
        exact Call.ReadsLike.retry (.inr hq)
    · exact Call.ReadsLike.refl _
  | txHoldEmpty hon | keyboard => exact h.frame rfl rfl rfl fun t => Call.ReadsLike.refl _
  | @receive b =>
    refine ⟨h.only, ?_, h.account, ?_, h.fair, h.answers⟩
    · change (s.call r).Reads { s.rx with fifo := s.rx.fifo ++ [b] }
      have hok := h.ok
      cases hcall : s.call r with
      | read c =>
        rw [hcall] at hok
        exact ⟨⟨hok.sound.bufsize, hok.sound.head_le, hok.sound.tail_lt⟩, hok.knows⟩
      | _ =>
        rw [hcall] at hok
        exact ⟨⟨hok.1.bufsize, hok.1.head_le, hok.1.tail_lt⟩, hok.2⟩
    · change s.received ++ [b] = s.rx.fates.map Fate.byte ++ (s.rx.fifo ++ [b])
      rw [h.device, List.append_assoc]
  | recvDataAvail hfifo => exact h.filled (h.sound.fifoHandler hfifo) _
  | charTimeout => exact h.filled h.sound.timeoutHandler _

end Received

/-! ## Whole runs -/

lemma Written.start (w : Nat) : Written w .start :=
  ⟨fun t c hc => (by cases hc), ⟨⟨rfl, by decide, Nat.zero_le _⟩, by decide⟩, rfl,
    fun answer hanswer => (by cases hanswer)⟩

lemma Received.start (r : Nat) : Received r .start :=
  ⟨fun t c hc => (by cases hc), ⟨⟨rfl, Nat.zero_le _, by decide⟩, by decide⟩, rfl, rfl,
    fun f hf => (by cases hf), fun answer hanswer => (by cases hanswer)⟩

/-- Nothing is left of an empty ring. -/
lemma items_of_isEmpty {b : CBuffer} (h : b.ring.isEmpty = true) (hvalid : b.ring.Valid) :
    b.items = [] := by
  apply List.length_eq_zero_iff.mp
  rw [CBuffer.items, Ring.items_length, Ring.used, hvalid.settle_eq]
  exact hvalid.isEmpty_iff.mp h

lemma Machine.Faithful.of_accounts (hw : Written w s) (hr : Received r s) : s.Faithful := by
  refine ⟨?_, ?_, hw.answers, hr.device, ?_, ?_, ?_, hr.answers⟩
  · rw [← hw.account, List.append_assoc]
    exact List.prefix_append _ _
  · intro hidle hempty
    have hok := hw.ok
    have haccount := hw.account
    cases hcall : s.call w with
    | write c => exact absurd hcall (hidle w c)
    | _ =>
      rw [hcall] at hok haccount
      rw [items_of_isEmpty hempty (hok.1.valid hok.2)] at haccount
      simpa only [Call.left, List.append_nil] using haccount
  · intro b freeSpace hdropped
    exact hr.fair _ hdropped
  · rw [← hr.account, List.append_assoc]
    exact List.prefix_append _ _
  · intro hidle hempty
    have hok := hr.ok
    have haccount := hr.account
    cases hcall : s.call r with
    | read c => exact absurd hcall (hidle r c)
    | _ =>
      rw [hcall] at hok haccount
      have hvalid : s.rx.buf.ring.Valid :=
        ⟨by rw [hok.1.bufsize]; exact hok.2, by rw [hok.1.bufsize]; exact hok.1.tail_lt⟩
      rw [items_of_isEmpty hempty hvalid] at haccount
      simpa only [Call.got, Call.copied, List.drop_nil, List.append_nil] using haccount

/-- The streams are faithful in every run without an interrupt at the wrong place. -/
theorem uart_streams
    (hrun : PartialRuns Machine.exec (fun s a => OneEach w r a ∧ Calm s a) .start s) :
    s.Faithful := by
  have hkept : Written w s ∧ Received r s := by
    refine hrun.invariant (P := fun s => Written w s ∧ Received r s) ?_
      ⟨Written.start w, Received.start r⟩
    intro s a s' h hok hexec
    have hstep := Machine.step_of_exec hexec
    exact ⟨h.1.step hok.1 hok.2 hstep, h.2.step hok.1 hok.2 hstep⟩
  exact Machine.Faithful.of_accounts hkept.1 hkept.2

instance (w r : Nat) (a : Action) : Decidable (OneEach w r a) :=
  match a with
  | .uartWrite t _ _ => inferInstanceAs (Decidable (t = w))
  | .uartRead t _ _ _ => inferInstanceAs (Decidable (t = r))
  | .kbdRead .. | .statement _ | .noItem _ | .resumeOnIoWait | .receive _ | .txHoldEmpty
  | .recvDataAvail | .charTimeout | .keyboard _ => inferInstanceAs (Decidable True)

instance (tx : Transmit) : Decidable tx.Calm :=
  inferInstanceAs (Decidable (_ = BUF_SIZE → _ ∧ _))

instance (tx : Transmit) (c : WriteCall) : Decidable (c.Calm tx) :=
  inferInstanceAs (Decidable (c.pc = .spaceReturn false → _ ∨ _))

instance (rx : Receive) (c : ReadCall) : Decidable (c.Calm rx) :=
  inferInstanceAs (Decidable (c.pc = .useReturn true → _ ∨ _))

instance (tx : Transmit) (rx : Receive) (c : Call) : Decidable (c.Calm tx rx) :=
  match c with
  | .write c => inferInstanceAs (Decidable (c.Calm tx))
  | .read c => inferInstanceAs (Decidable (c.Calm rx))
  | .kbd _ | .none => inferInstanceAs (Decidable True)

instance (s : Machine) (a : Action) : Decidable (Calm s a) :=
  match a with
  | .uartWrite _ (some _) _ => inferInstanceAs (Decidable (_ = 0 → _ < _))
  | .uartWrite _ none _ => inferInstanceAs (Decidable True)
  | .statement t => inferInstanceAs (Decidable ((s.call t).Calm s.tx s.rx))
  | .txHoldEmpty => inferInstanceAs (Decidable s.tx.Calm)
  | .uartRead .. | .kbdRead .. | .noItem _ | .resumeOnIoWait | .receive _
  | .recvDataAvail | .charTimeout | .keyboard _ => inferInstanceAs (Decidable True)

/-- A byte goes out and a byte comes in. -/
theorem uart_streams_both_ways : ∃ s : Machine, s.tx.sent = [7] ∧ s.taken = [([9], 1)] ∧
    s.Faithful := by
  have hcheck : ∃ s ∈ checkedRun Machine.exec (fun s a => OneEach 0 1 a ∧ Calm s a)
      (.uartWrite 0 (some [7]) 0 :: List.replicate 15 (.statement 0) ++
        [.txHoldEmpty, .receive 9, .charTimeout, .uartRead 1 true 4 0] ++
        List.replicate 10 (.statement 1)) .start,
      s.tx.sent = [7] ∧ s.taken = [([9], 1)] := by decide
  obtain ⟨s, hs, hsent, htaken⟩ := hcheck
  have hrun := PartialRuns.of_checkedRun _ (PartialRuns.refl _) hs
  exact ⟨s, hsent, htaken, uart_streams hrun⟩

/-! ## A run to the end of the array -/

/-- A machine whose thread 0 is in a given call. -/
def Machine.into (s : Machine) (tx : Transmit) (c : Call) : Machine :=
  { s with tx := tx, call := Function.update s.call 0 c }

/-- A number of statements of a writer that does not wait. -/
def WriteCall.steps : Nat → Transmit × WriteCall → Option (Transmit × WriteCall)
  | 0, p => some p
  | n + 1, p =>
    if p.2.pc = .ioWait ∨ p.2.pc = .asleep ∨ p.2.pc = .finished then none
    else WriteCall.steps n (p.2.step p.1)

lemma waitsOn_eq_none {c : WriteCall} (h : c.pc ≠ .ioWait) :
    (Call.write c).waitsOn = .none := by
  obtain ⟨pc, buf, bytes, retval, whole⟩ := c
  cases pc with
  | ioWait => exact absurd rfl h
  | _ => rfl

lemma exec_statement (s : Machine) (tx : Transmit) {c : WriteCall} (hwait : c.pc ≠ .ioWait)
    (hasleep : c.pc ≠ .asleep) (hlast : c.pc ≠ .finished) :
    (s.into tx (.write c)).exec (.statement 0) =
      some (s.into (c.step tx).1 (.write (c.step tx).2)) := by
  have hcall : (s.into tx (.write c)).call 0 = .write c := by
    simp only [Machine.into, update_self]
  simp only [Machine.exec, Machine.run, hcall, waitsOn_eq_none hwait, if_neg hlast, if_neg hasleep]
  simp only [Machine.into, Machine.setCall, Function.update_idem]

/-- The statements of a writer that does not wait are a run. -/
lemma run_of_steps (n : Nat) : ∀ {p q : Transmit × WriteCall}, WriteCall.steps n p = some q →
    PartialRuns Machine.exec (fun _ a => OneEach 0 r a) (s.into p.1 (.write p.2))
      (s.into q.1 (.write q.2)) := by
  induction n with
  | zero =>
    intro p q h
    cases h
    exact PartialRuns.refl _
  | succ n ih =>
    intro p q h
    rw [WriteCall.steps] at h
    split_ifs at h with hpc
    simp only [not_or] at hpc
    have hfirst := exec_statement s p.1 hpc.1 hpc.2.1 hpc.2.2
    refine Relation.ReflTransGen.head ⟨.statement 0, trivial, hfirst⟩ (ih h)

lemma toUnsigned_cast {n : Nat} (h : n < 2 ^ 32) : toUnsigned n = n := by
  rw [toUnsigned_eq (by omega) (by omega)]
  rfl

/-- A byte is added to an empty ring. -/
lemma steps_one (cells : Nat → UInt8) (etbei : Bool) (sent : List UInt8) {p : Nat} (b : UInt8)
    (hp : p + 1 < BUF_SIZE) :
    WriteCall.steps 14 (⟨⟨⟨p, p, BUF_SIZE⟩, cells⟩, etbei, sent⟩, ⟨.waitTest, [b], 1, 0, [b]⟩) =
      some (⟨⟨⟨p, p + 1, BUF_SIZE⟩, update cells p b⟩, true, sent⟩,
        ⟨.finished, [], 0, 1, [b]⟩) := by
  have hbuf : BUF_SIZE = 1024 := rfl
  have hfree : freeSpaceReturn ⟨p, p, BUF_SIZE⟩ true = 1023 := by
    rw [freeSpaceReturn, if_pos rfl, toUnsigned]
    simp only [BUF_SIZE]
    omega
  have hto : toUnsigned ((p : Int) + 1) = p + 1 := toUnsigned_cast (n := p + 1) (by omega)
  have hend : ¬BUF_SIZE ≤ p + 1 := by omega
  have hzero : toUnsigned 0 = 0 := rfl
  have hint : toInt32 1 = 1 := rfl
  simp [WriteCall.steps, WriteCall.step, hfree, hto, hend, hzero, hint, TX_SEQ_MAX]

/-- Four bytes are added behind one byte, up to `cbuffer_add_n`. -/
lemma steps_four (cells : Nat → UInt8) (sent : List UInt8) (b : UInt8) :
    ∃ cells', WriteCall.steps 13 (⟨⟨⟨1019, 1020, BUF_SIZE⟩, cells⟩, true, sent⟩,
        ⟨.waitTest, [b, b, b, b], 4, 0, [b, b, b, b]⟩) =
      some (⟨⟨⟨1019, 1024, BUF_SIZE⟩, cells'⟩, true, sent⟩,
        ⟨.addTest 4, [b, b, b, b], 4, 0, [b, b, b, b]⟩) := by
  have hfree : freeSpaceReturn ⟨1019, 1020, BUF_SIZE⟩ true = 1022 := rfl
  have hto : toUnsigned 1024 = 1024 := rfl
  have hcut : toUnsigned ((BUF_SIZE : Int) - 1020) = 4 := rfl
  have hend : BUF_SIZE ≤ 1024 := le_rfl
  refine ⟨update (update (update (update cells 1020 b) 1021 b)
    1022 b) 1023 b, ?_⟩
  simp [WriteCall.steps, WriteCall.step, hfree, hto, hcut, hend, TX_SEQ_MAX]

/-- With the tail past the end of the array the handler sends as much as it can. -/
lemma sendLoop_end (n : Nat) : ∀ tx : Transmit, tx.buf.ring.bufsize = BUF_SIZE →
    tx.buf.ring.head < BUF_SIZE → tx.buf.ring.tail = BUF_SIZE →
    (sendLoop n tx).sent.length = tx.sent.length + n := by
  induction n with
  | zero => exact fun _ _ _ _ => rfl
  | succ n ih =>
    intro tx hsize hhead htail
    have hne : tx.buf.ring.isEmpty = false := decide_eq_false (by omega)
    have hnext : tx.sendOne.buf.ring.head < BUF_SIZE := by
      change (if tx.buf.ring.head + 1 = tx.buf.ring.bufsize then 0 else tx.buf.ring.head + 1) < _
      rw [hsize]
      split
      · decide
      · omega
    rw [sendLoop_succ, hne, if_neg Bool.false_ne_true, ih tx.sendOne hsize hnext htail]
    change (tx.sent ++ [_]).length + n = _
    rw [List.length_append, List.length_singleton]
    omega

lemma uartHandleTxData_sent (tx : Transmit) :
    (uartHandleTxData tx).sent = (sendLoop TX_SEQ_MAX tx).sent := by
  rw [uartHandleTxData]
  split <;> rfl

/-- Nobody writes and the ring is empty at a given slot. -/
structure Machine.AtRest (p : Nat) (s : Machine) : Prop where
  idle : s.call 0 = .none
  ring : s.tx.buf.ring = ⟨p, p, BUF_SIZE⟩
  sent : s.tx.sent = s.asked

/-- A call starts. -/
lemma exec_uartWrite (whole : List UInt8) (hidle : s.call 0 = .none) (hne : whole.length ≠ 0) :
    s.exec (.uartWrite 0 (some whole) 0) =
      some ({ s with asked := s.asked ++ whole }.into s.tx
        (.write ⟨.waitTest, whole, whole.length, 0, whole⟩)) := by
  have hcall : uartWrite (some whole) 0 = .inl ⟨.waitTest, whole, whole.length, 0, whole⟩ := by
    simp only [uartWrite, ne_eq, not_true, if_false, if_neg hne]
  simp only [Machine.exec, hidle, hcall]
  rfl

/-- A call returns. -/
lemma exec_finished {tx : Transmit} {buf whole : List UInt8} {bytes : Nat} {retval : Int} :
    (s.into tx (.write ⟨.finished, buf, bytes, retval, whole⟩)).exec (.statement 0) =
      some ({ s with written := s.written ++ [(whole, retval)] }.into tx .none) := by
  have hcall : (s.into tx (.write ⟨.finished, buf, bytes, retval, whole⟩)).call 0 =
      .write ⟨.finished, buf, bytes, retval, whole⟩ := by
    simp only [Machine.into, update_self]
  simp only [Machine.exec, Machine.run, hcall, Call.waitsOn, if_true]
  simp only [Machine.into, Machine.setCall, Function.update_idem]

/-- A byte is written to an empty ring. -/
lemma Machine.AtRest.write_byte {p : Nat} (h : s.AtRest p) (hp : p + 1 < BUF_SIZE) :
    ∃ s' cells, PartialRuns Machine.exec (fun _ a => OneEach 0 r a) s s' ∧ s'.call 0 = .none ∧
      s'.tx = ⟨⟨⟨p, p + 1, BUF_SIZE⟩, update cells p 0⟩, true, s.asked⟩ ∧
      s'.asked = s.asked ++ [0] := by
  have hstart := exec_uartWrite [0] h.idle (by decide)
  have htx : s.tx = ⟨⟨⟨p, p, BUF_SIZE⟩, s.tx.buf.cells⟩, s.tx.etbei, s.asked⟩ := by
    rw [← h.sent, ← h.ring]
  have hsteps := steps_one s.tx.buf.cells s.tx.etbei s.asked 0 hp
  rw [← htx] at hsteps
  have hrun := run_of_steps (s := { s with asked := s.asked ++ [0] }) (r := r) 14 hsteps
  have hbegin : PartialRuns Machine.exec (fun _ a => OneEach 0 r a) s _ :=
    (PartialRuns.refl s).tail (i := .uartWrite 0 (some [0]) 0) rfl hstart
  refine ⟨_, s.tx.buf.cells,
    (PartialRuns.trans hbegin hrun).tail (i := .statement 0) trivial exec_finished, ?_, rfl, rfl⟩
  simp only [Machine.into, update_self]

/-- A byte is written and sent. -/
lemma Machine.AtRest.next {p : Nat} (h : s.AtRest p) (hp : p + 1 < BUF_SIZE) :
    ∃ s', PartialRuns Machine.exec (fun _ a => OneEach 0 r a) s s' ∧ s'.AtRest (p + 1) := by
  obtain ⟨s', cells, hrun, hidle, htx, hasked⟩ := h.write_byte (r := r) hp
  have hsent : uartHandleTxData s'.tx =
      ⟨⟨⟨p + 1, p + 1, BUF_SIZE⟩, update cells p 0⟩, false, s.asked ++ [0]⟩ := by
    have hne : p + 1 ≠ BUF_SIZE := by omega
    rw [htx]
    simp [uartHandleTxData, TX_SEQ_MAX, sendLoop, Ring.isEmpty, Ring.remove, hne]
  have hexec : s'.exec .txHoldEmpty =
      some ({ s' with tx := uartHandleTxData s'.tx }.threadIoResume .writers) := by
    rw [Machine.exec, htx]
    rfl
  refine ⟨_, hrun.tail (i := .txHoldEmpty) trivial hexec, hidle, ?_, ?_⟩
  · change (uartHandleTxData s'.tx).buf.ring = _
    rw [hsent]
  · change (uartHandleTxData s'.tx).sent = s'.asked
    rw [hsent, hasked]

lemma exists_atRest (p : Nat) (hp : p < BUF_SIZE) :
    ∃ s, PartialRuns Machine.exec (fun _ a => OneEach 0 r a) .start s ∧ s.AtRest p := by
  induction p with
  | zero => exact ⟨.start, PartialRuns.refl _, rfl, rfl, rfl⟩
  | succ p ih =>
    obtain ⟨s, hrun, hrest⟩ := ih (by omega)
    obtain ⟨s', hnext, hrest'⟩ := hrest.next (r := r) hp
    exact ⟨s', PartialRuns.trans hrun hnext, hrest'⟩

/-- Five bytes are written around the end of the array and the handler sends sixteen. -/
theorem uart_streams_broken :
    ¬∀ (w r : Nat) (s : Machine),
      PartialRuns Machine.exec (fun _ a => OneEach w r a) .start s → s.Faithful := by
  intro hclaim
  obtain ⟨s, hrun, hrest⟩ := exists_atRest (r := 1) 1019 (by decide)
  obtain ⟨s₁, cells, hbyte, hidle, htx, hasked⟩ := hrest.write_byte (r := 1) (by decide)
  have hstart := exec_uartWrite [0, 0, 0, 0] hidle (by decide)
  obtain ⟨cells', hsteps⟩ := steps_four (Function.update cells 1019 0) s.asked 0
  rw [← htx] at hsteps
  have hfour := run_of_steps (s := { s₁ with asked := s₁.asked ++ [0, 0, 0, 0] }) (r := 1) 13 hsteps
  have hbegin := (PartialRuns.trans hrun hbyte).tail (i := .uartWrite 0 (some [0, 0, 0, 0]) 0) rfl
    hstart
  have hbefore := PartialRuns.trans hbegin hfour
  have hlast := hclaim 0 1 _ (hbefore.tail (i := .txHoldEmpty) trivial rfl)
  have hlong : (uartHandleTxData ⟨⟨⟨1019, 1024, BUF_SIZE⟩, cells'⟩, true, s.asked⟩).sent.length ≤
      (s₁.asked ++ [0, 0, 0, 0]).length := hlast.sent_prefix.length_le
  have hhead : 1019 < BUF_SIZE := by decide
  have hsixteen := sendLoop_end TX_SEQ_MAX
    ⟨⟨⟨1019, 1024, BUF_SIZE⟩, cells'⟩, true, s.asked⟩ rfl hhead rfl
  rw [uartHandleTxData_sent, hsixteen, hasked] at hlong
  simp only [List.length_append, List.length_cons, List.length_nil, TX_SEQ_MAX] at hlong
  omega

end DiegOS.Drivers
