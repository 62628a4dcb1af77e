import DiegOS.Drivers.CharDrivers

/-!
# Wake-ups of the character drivers

A thread tests a ring and then registers on its wait queue, and the handlers wake only the
threads registered.  A wake-up is lost exactly if the ring has changed between the two.

Main results:

- Theorem `Registered.step`: the sleeping threads are those in the wait queues and those
  noted in `thread_ids`.
- Theorem `wake_ups`: no wake-up is lost as long as each thread registers with what it has
  found still true, and the first other step loses one.
- Theorem `wake_ups_broken`: a byte received between the test and the registration.
-/

namespace DiegOS.Drivers

open Function

open Lib (Ring PartialRuns)

variable {s s' : Machine} {a : Action}

/-- A thread blocked in `thread_io_wait` has something to wait for, or its wake-up is
pending. -/
structure Machine.NoLostWakeUp (s : Machine) : Prop where
  readers : ∀ t, (s.call t).sleepsOn = some .readers →
    s.rx.buf.ring.isEmpty = true ∨ s.threadIds t = true
  writers : ∀ t, (s.call t).sleepsOn = some .writers →
    s.tx.buf.ring.isEmpty = false ∨ s.threadIds t = true
  keyboard : ∀ t, (s.call t).sleepsOn = some .keyboard →
    s.keyboard.ring.isEmpty = true ∨ s.threadIds t = true

/-- A thread is blocked and no wake-up is pending for it. -/
def Machine.Blocked (s : Machine) (q : WaitQueue) : Prop :=
  ∃ t, (s.call t).sleepsOn = some q ∧ s.threadIds t = false

/-- What a thread of a wait queue waits for has not come. -/
def Machine.Quiet (s : Machine) : WaitQueue → Prop
  | .readers => s.rx.buf.ring.isEmpty = true
  | .writers => s.tx.buf.ring.isEmpty = false
  | .keyboard => s.keyboard.ring.isEmpty = true

lemma noLostWakeUp_iff : s.NoLostWakeUp ↔ ∀ q, s.Blocked q → s.Quiet q := by
  constructor
  · intro h q hblocked
    obtain ⟨t, hsleeps, hnoted⟩ := hblocked
    have hfalse : s.threadIds t ≠ true := by simp [hnoted]
    cases q with
    | readers => exact (h.readers t hsleeps).resolve_right hfalse
    | writers => exact (h.writers t hsleeps).resolve_right hfalse
    | keyboard => exact (h.keyboard t hsleeps).resolve_right hfalse
  · intro h
    have hthread : ∀ q t, (s.call t).sleepsOn = some q → s.Quiet q ∨ s.threadIds t = true := by
      intro q t hsleeps
      cases hnoted : s.threadIds t with
      | true => exact .inr rfl
      | false => exact .inl (h q ⟨t, hsleeps, hnoted⟩)
    exact ⟨hthread .readers, hthread .writers, hthread .keyboard⟩

/-- The next statement of a writer leaves bytes to send to those who wait for them to go. -/
def WriteCall.Settled (s : Machine) (c : WriteCall) : Prop :=
  let r := s.tx.buf.ring
  match c.pc with
  | .ioWait => r.isEmpty = false
  | .addTail n => s.Blocked .writers → toUnsigned (r.tail + n) ≠ r.head
  | .addWrap _ => s.Blocked .writers → toUnsigned (r.tail - r.bufsize) ≠ r.head
  | _ => True

/-- The next statement of a reader leaves the ring empty for those who found it empty. -/
def ReadCall.Settled (s : Machine) (c : ReadCall) : Prop :=
  let r := s.rx.buf.ring
  match c.pc with
  | .ioWait => r.isEmpty = true
  | .removeHead n _ => s.Blocked .readers → toUnsigned (r.head + n) = r.tail
  | .removeWrap _ => s.Blocked .readers → toUnsigned (r.head - r.bufsize) = r.tail
  | _ => True

/-- The next statement of a reader of the keyboard, likewise. -/
def KbdCall.Settled (s : Machine) (c : KbdCall) : Prop :=
  let r := s.keyboard.ring
  match c.pc with
  | .ioWait => r.isEmpty = true
  | .removeHead => s.Blocked .keyboard → toUnsigned (r.head + 1) = r.tail
  | .removeWrap => s.Blocked .keyboard → 0 = r.tail
  | _ => True

/-- A thread that registers still has what it found, and a thread that moves a position of a
ring does not bring what another thread is blocked for. -/
def Settled (s : Machine) : Action → Prop
  | .statement t =>
    match s.call t with
    | .write c => c.Settled s
    | .read c => c.Settled s
    | .kbd c => c.Settled s
    | .none => True
  | _ => True

/-- The sleeping threads, the wait queues and the wake-ups noted. -/
structure Registered (s : Machine) : Prop where
  queued : ∀ t q, (s.call t).sleepsOn = some q → s.threadIds t = false → t ∈ s.queue q
  asleep : ∀ t q, t ∈ s.queue q → (s.call t).sleepsOn = some q ∧ s.threadIds t = false
  noted : ∀ t, s.threadIds t = true → ∃ q, (s.call t).sleepsOn = some q

/-- What happens to the rings does not matter. -/
lemma Registered.device (h : Registered s) (hcall : s'.call = s.call)
    (hqueue : s'.queue = s.queue) (hnoted : s'.threadIds = s.threadIds) : Registered s' := by
  refine ⟨?_, ?_, ?_⟩
  · rw [hcall, hqueue, hnoted]
    exact h.queued
  · rw [hcall, hqueue, hnoted]
    exact h.asleep
  · rw [hcall, hnoted]
    exact h.noted

lemma sleepsOn_sleep {c : Call} {q : WaitQueue} (h : c.waitsOn = some q) :
    c.sleep.sleepsOn = some q := by
  cases c with
  | none => cases h
  | write c =>
    obtain ⟨pc, buf, bytes, retval, whole⟩ := c
    cases pc with
    | ioWait => exact h
    | _ => cases h
  | read c =>
    obtain ⟨pc, bytes, ret, dest⟩ := c
    cases pc with
    | ioWait => exact h
    | _ => cases h
  | kbd c =>
    obtain ⟨pc, bytes, count, dest⟩ := c
    cases pc with
    | ioWait => exact h
    | _ => cases h

lemma sleepsOn_of_waitsOn {c : Call} {q : WaitQueue} (h : c.waitsOn = some q) :
    c.sleepsOn = .none := by
  cases c with
  | none => rfl
  | write c =>
    obtain ⟨pc, buf, bytes, retval, whole⟩ := c
    cases pc with
    | ioWait => rfl
    | _ => cases h
  | read c =>
    obtain ⟨pc, bytes, ret, dest⟩ := c
    cases pc with
    | ioWait => rfl
    | _ => cases h
  | kbd c =>
    obtain ⟨pc, bytes, count, dest⟩ := c
    cases pc with
    | ioWait => rfl
    | _ => cases h

lemma sleepsOn_retry (c : Call) : c.retry.sleepsOn = .none := by
  cases c with
  | none | write c | read c | kbd c => rfl

lemma sleepsOn_write {c : WriteCall} (h : c.pc ≠ .asleep) : (Call.write c).sleepsOn = .none := by
  obtain ⟨pc, buf, bytes, retval, whole⟩ := c
  cases pc with
  | asleep => exact absurd rfl h
  | _ => rfl

lemma sleepsOn_read {c : ReadCall} (h : c.pc ≠ .asleep) : (Call.read c).sleepsOn = .none := by
  obtain ⟨pc, bytes, ret, dest⟩ := c
  cases pc with
  | asleep => exact absurd rfl h
  | _ => rfl

lemma sleepsOn_kbd {c : KbdCall} (h : c.pc ≠ .asleep) : (Call.kbd c).sleepsOn = .none := by
  obtain ⟨pc, bytes, count, dest⟩ := c
  cases pc with
  | asleep => exact absurd rfl h
  | _ => rfl

/-- No statement of the drivers puts a thread to sleep by itself. -/
lemma WriteCall.step_pc {tx : Transmit} {c : WriteCall} (h : c.pc ≠ .asleep) :
    (c.step tx).2.pc ≠ .asleep := by
  unfold WriteCall.step
  cases hpc : c.pc with
  | asleep => exact absurd hpc h
  | waitReturn below | wrapTest n | copy n done | addTest n | loop => simp only; split <;> simp
  | _ => simp [hpc]

lemma ReadCall.step_pc {rx : Receive} {c : ReadCall} (h : c.pc ≠ .asleep) :
    (c.step rx).2.pc ≠ .asleep := by
  have hafter : ∀ rest, ReadPc.after rest ≠ .asleep := by
    intro rest
    cases rest with
    | none | some n => simp [ReadPc.after]
  unfold ReadCall.step
  cases hpc : c.pc with
  | asleep => exact absurd hpc h
  | emptyTest | wrapTest | copy n done rest => simp only; split <;> simp
  | removeTest rest => simp only; split <;> simp [hafter]
  | removeWrap rest => exact hafter rest
  | _ => simp [hpc]

lemma KbdCall.step_pc {kbd : CBuffer} {c : KbdCall} (h : c.pc ≠ .asleep) :
    (c.step kbd).2.pc ≠ .asleep := by
  unfold KbdCall.step
  cases hpc : c.pc with
  | asleep => exact absurd hpc h
  | emptyTest | loopTest | removeTest => simp only; split <;> simp
  | _ => simp [hpc]

/-- A step in which a thread that does not sleep goes on and no thread is woken. -/
structure GoesOn (s s' : Machine) (t : Nat) : Prop where
  queue_eq : s'.queue = s.queue
  threadIds_eq : s'.threadIds = s.threadIds
  other : ∀ u, u ≠ t → s'.call u = s.call u
  before : (s.call t).sleepsOn = .none
  after : (s'.call t).sleepsOn = .none

namespace GoesOn

lemma sleepsOn_eq {t : Nat} (h : GoesOn s s' t) (u : Nat) :
    (s'.call u).sleepsOn = (s.call u).sleepsOn := by
  by_cases hu : u = t
  · rw [hu, h.before, h.after]
  · rw [h.other u hu]

lemma registered {t : Nat} (h : GoesOn s s' t) (hr : Registered s) : Registered s' := by
  refine ⟨fun u q => ?_, fun u q => ?_, fun u => ?_⟩
  · rw [h.sleepsOn_eq, h.threadIds_eq, h.queue_eq]
    exact hr.queued u q
  · rw [h.sleepsOn_eq, h.threadIds_eq, h.queue_eq]
    exact hr.asleep u q
  · rw [h.sleepsOn_eq, h.threadIds_eq]
    exact hr.noted u

lemma blocked_iff {t : Nat} (h : GoesOn s s' t) (q : WaitQueue) : s'.Blocked q ↔ s.Blocked q := by
  simp only [Machine.Blocked, h.sleepsOn_eq, h.threadIds_eq]

/-- Only the rings decide. -/
lemma noLostWakeUp_iff {t : Nat} (h : GoesOn s s' t) :
    s'.NoLostWakeUp ↔ ∀ q, s.Blocked q → s'.Quiet q := by
  simp only [Drivers.noLostWakeUp_iff, h.blocked_iff]

/-- Only one ring decides. -/
lemma noLostWakeUp_one {t : Nat} (h : GoesOn s s' t) (hs : s.NoLostWakeUp) {q : WaitQueue}
    (hothers : ∀ q', q' ≠ q → (s'.Quiet q' ↔ s.Quiet q')) :
    s'.NoLostWakeUp ↔ (s.Blocked q → s'.Quiet q) := by
  rw [h.noLostWakeUp_iff]
  constructor
  · exact fun hall => hall q
  · intro hone q' hblocked
    by_cases hq : q' = q
    · rw [hq] at hblocked ⊢
      exact hone hblocked
    · exact (hothers q' hq).mpr (Drivers.noLostWakeUp_iff.mp hs q' hblocked)

/-- No ring is changed. -/
lemma noLostWakeUp_same {t : Nat} (h : GoesOn s s' t) (hs : s.NoLostWakeUp)
    (hsame : ∀ q, s'.Quiet q ↔ s.Quiet q) : s'.NoLostWakeUp := by
  rw [h.noLostWakeUp_iff]
  intro q hblocked
  exact (hsame q).mpr (Drivers.noLostWakeUp_iff.mp hs q hblocked)

lemma setCall {t : Nat} {c : Call} (hbefore : (s.call t).sleepsOn = .none)
    (hafter : c.sleepsOn = .none) : GoesOn s (s.setCall t c) t := by
  refine ⟨rfl, rfl, fun u hu => ?_, hbefore, ?_⟩
  · simp only [Machine.setCall, update_of_ne hu]
  · simp only [Machine.setCall, update_self]
    exact hafter

end GoesOn

lemma waitsOn_write_ne {c : WriteCall} (h : c.pc ≠ .ioWait) (q : WaitQueue) :
    (Call.write c).waitsOn ≠ some q := by
  obtain ⟨pc, buf, bytes, retval, whole⟩ := c
  cases pc with
  | ioWait => exact absurd rfl h
  | _ => exact nofun

lemma waitsOn_read_ne {c : ReadCall} (h : c.pc ≠ .ioWait) (q : WaitQueue) :
    (Call.read c).waitsOn ≠ some q := by
  obtain ⟨pc, bytes, ret, dest⟩ := c
  cases pc with
  | ioWait => exact absurd rfl h
  | _ => exact nofun

lemma waitsOn_kbd_ne {c : KbdCall} (h : c.pc ≠ .ioWait) (q : WaitQueue) :
    (Call.kbd c).waitsOn ≠ some q := by
  obtain ⟨pc, bytes, count, dest⟩ := c
  cases pc with
  | ioWait => exact absurd rfl h
  | _ => exact nofun

/-! ## The statements that move a position -/

lemma WriteCall.settled_iff {c : WriteCall} (hs : s.NoLostWakeUp) (hwait : c.pc ≠ .ioWait) :
    (s.Blocked .writers → (c.step s.tx).1.buf.ring.isEmpty = false) ↔ c.Settled s := by
  have hquiet : s.Blocked .writers → s.tx.buf.ring.isEmpty = false :=
    noLostWakeUp_iff.mp hs .writers
  unfold WriteCall.Settled WriteCall.step
  cases hpc : c.pc with
  | ioWait => exact absurd hpc hwait
  | addTail n | addWrap n =>
    apply forall_congr'
    intro _
    exact decide_eq_false_iff_not.trans ne_comm
  | copy n done =>
    simp only
    split <;> exact iff_of_true hquiet trivial
  | _ => exact iff_of_true hquiet trivial

lemma ReadCall.settled_iff {c : ReadCall} (hs : s.NoLostWakeUp) (hwait : c.pc ≠ .ioWait) :
    (s.Blocked .readers → (c.step s.rx).1.buf.ring.isEmpty = true) ↔ c.Settled s := by
  have hquiet : s.Blocked .readers → s.rx.buf.ring.isEmpty = true :=
    noLostWakeUp_iff.mp hs .readers
  unfold ReadCall.Settled ReadCall.step
  cases hpc : c.pc with
  | ioWait => exact absurd hpc hwait
  | removeHead n rest | removeWrap rest =>
    apply forall_congr'
    intro _
    exact decide_eq_true_iff
  | copy n done rest =>
    simp only
    split <;> exact iff_of_true hquiet trivial
  | _ => exact iff_of_true hquiet trivial

lemma KbdCall.settled_iff {c : KbdCall} (hs : s.NoLostWakeUp) (hwait : c.pc ≠ .ioWait) :
    (s.Blocked .keyboard → (c.step s.keyboard).1.ring.isEmpty = true) ↔ c.Settled s := by
  have hquiet : s.Blocked .keyboard → s.keyboard.ring.isEmpty = true :=
    noLostWakeUp_iff.mp hs .keyboard
  unfold KbdCall.Settled KbdCall.step
  cases hpc : c.pc with
  | ioWait => exact absurd hpc hwait
  | removeHead | removeWrap =>
    apply forall_congr'
    intro _
    exact decide_eq_true_iff
  | _ => exact iff_of_true hquiet trivial

/-! ## Going to sleep and waking up -/

lemma Registered.threadIoWait (h : Registered s) {t : Nat} {q : WaitQueue}
    (hwaits : (s.call t).waitsOn = some q) : Registered (s.threadIoWait t q) := by
  have hbefore := sleepsOn_of_waitsOn hwaits
  have hcall : ∀ u, u ≠ t → (s.threadIoWait t q).call u = s.call u := fun u hu => by
    simp only [Machine.threadIoWait, Machine.setCall, update_of_ne hu]
  have hself : ((s.threadIoWait t q).call t).sleepsOn = some q := by
    simp only [Machine.threadIoWait, Machine.setCall, update_self]
    exact sleepsOn_sleep hwaits
  have hnoted : s.threadIds t = false := by
    cases ht : s.threadIds t with
    | false => rfl
    | true =>
      obtain ⟨q', hq'⟩ := h.noted t ht
      rw [hbefore] at hq'
      cases hq'
  have hqueue : ∀ u q', u ∈ (s.threadIoWait t q).queue q' ↔
      u ∈ s.queue q' ∨ (q' = q ∧ u = t) := by
    intro u q'
    by_cases hq : q' = q
    · subst hq
      simp [Machine.threadIoWait]
    · simp [Machine.threadIoWait, Machine.setCall, hq]
  refine ⟨fun u q' hsleeps hu => ?_, fun u q' hmem => ?_, fun u hu => ?_⟩
  · rw [hqueue]
    by_cases ht : u = t
    · rw [ht, hself] at hsleeps
      exact .inr ⟨(Option.some.inj hsleeps).symm, ht⟩
    · rw [hcall u ht] at hsleeps
      exact .inl (h.queued u q' hsleeps hu)
  · rcases (hqueue u q').mp hmem with hold | ⟨rfl, rfl⟩
    · have hasleep := h.asleep u q' hold
      have ht : u ≠ t := by
        rintro rfl
        rw [hbefore] at hasleep
        cases hasleep.1
      rw [hcall u ht]
      exact hasleep
    · exact ⟨hself, hnoted⟩
  · by_cases ht : u = t
    · exact ⟨q, by rw [ht]; exact hself⟩
    · rw [hcall u ht]
      exact h.noted u hu

lemma blocked_threadIoWait (h : Registered s) {t : Nat} {q : WaitQueue}
    (hwaits : (s.call t).waitsOn = some q) (q' : WaitQueue) :
    (s.threadIoWait t q).Blocked q' ↔ q' = q ∨ s.Blocked q' := by
  have hbefore := sleepsOn_of_waitsOn hwaits
  have hself : ((s.threadIoWait t q).call t).sleepsOn = some q := by
    simp only [Machine.threadIoWait, Machine.setCall, update_self]
    exact sleepsOn_sleep hwaits
  constructor
  · rintro ⟨u, hsleeps, hu⟩
    by_cases ht : u = t
    · rw [ht, hself] at hsleeps
      exact .inl (Option.some.inj hsleeps).symm
    · simp only [Machine.threadIoWait, Machine.setCall, update_of_ne ht] at hsleeps
      exact .inr ⟨u, hsleeps, hu⟩
  · rintro (rfl | ⟨u, hsleeps, hu⟩)
    · exact ⟨t, hself, ((h.threadIoWait hwaits).asleep t q' (by simp [Machine.threadIoWait])).2⟩
    · have ht : u ≠ t := by
        rintro rfl
        rw [hbefore] at hsleeps
        cases hsleeps
      refine ⟨u, ?_, hu⟩
      simp only [Machine.threadIoWait, Machine.setCall, update_of_ne ht]
      exact hsleeps

lemma Registered.threadIoResume (h : Registered s) (q : WaitQueue) :
    Registered (s.threadIoResume q) := by
  refine ⟨fun t q' hsleeps ht => ?_, fun t q' hmem => ?_, fun t ht => ?_⟩
  · simp only [Machine.threadIoResume, Bool.or_eq_false_iff, decide_eq_false_iff_not] at ht
    have hqueued := h.queued t q' hsleeps ht.1
    have hq : q' ≠ q := by
      rintro rfl
      exact ht.2 hqueued
    simp only [Machine.threadIoResume, update_of_ne hq]
    exact hqueued
  · by_cases hq : q' = q
    · subst hq
      simp [Machine.threadIoResume] at hmem
    · simp only [Machine.threadIoResume, update_of_ne hq] at hmem
      have hasleep := h.asleep t q' hmem
      refine ⟨hasleep.1, ?_⟩
      simp only [Machine.threadIoResume, hasleep.2, Bool.false_or, decide_eq_false_iff_not]
      intro hboth
      have hsame := (h.asleep t q hboth).1
      rw [hasleep.1] at hsame
      exact hq (Option.some.inj hsame)
  · simp only [Machine.threadIoResume, Bool.or_eq_true, decide_eq_true_eq] at ht
    rcases ht with ht | ht
    · exact h.noted t ht
    · exact ⟨q, (h.asleep t q ht).1⟩

/-- After a resume nobody is blocked on the queue. -/
lemma blocked_threadIoResume (h : Registered s) {q q' : WaitQueue}
    (hblocked : (s.threadIoResume q).Blocked q') : q' ≠ q ∧ s.Blocked q' := by
  obtain ⟨t, hsleeps, ht⟩ := hblocked
  simp only [Machine.threadIoResume, Bool.or_eq_false_iff, decide_eq_false_iff_not] at ht
  refine ⟨?_, t, hsleeps, ht.1⟩
  rintro rfl
  exact ht.2 (h.queued t q' hsleeps ht.1)

lemma sleepsOn_resume (t : Nat) : (s.resumeOnIoWait.call t).sleepsOn =
    if s.threadIds t = true then .none else (s.call t).sleepsOn := by
  simp only [Machine.resumeOnIoWait]
  cases ht : s.threadIds t with
  | false => simp
  | true =>
    cases hsleeps : (s.call t).sleepsOn with
    | none => simp [hsleeps]
    | some q => simp [sleepsOn_retry]

lemma Registered.resumeOnIoWait (h : Registered s) : Registered s.resumeOnIoWait := by
  refine ⟨fun t q hsleeps _ => ?_, fun t q hmem => ?_, fun t ht => by cases ht⟩
  · rw [sleepsOn_resume] at hsleeps
    split_ifs at hsleeps with ht
    exact h.queued t q hsleeps (by simpa using ht)
  · have hasleep := h.asleep t q hmem
    refine ⟨?_, rfl⟩
    rw [sleepsOn_resume, hasleep.2, if_neg Bool.false_ne_true]
    exact hasleep.1

lemma blocked_resumeOnIoWait {q : WaitQueue} (hblocked : s.resumeOnIoWait.Blocked q) :
    s.Blocked q := by
  obtain ⟨t, hsleeps, -⟩ := hblocked
  rw [sleepsOn_resume] at hsleeps
  split_ifs at hsleeps with ht
  exact ⟨t, hsleeps, by simpa using ht⟩

/-! ## One step -/

/-- The threads that go on in a step. -/
lemma goesOn_of_step {t : Nat} (hstep : s.Step (.statement t) s')
    (hnot : ∀ q, (s.call t).waitsOn ≠ some q) : GoesOn s s' t := by
  cases hstep with
  | refused hother => exact absurd rfl (hother t)
  | sleep hwaits => exact absurd hwaits (hnot _)
  | @write t c hcall hwait hasleep hlast =>
    have hgo : GoesOn s (s.setCall t (.write (c.step s.tx).2)) t :=
      GoesOn.setCall (by rw [hcall]; exact sleepsOn_write hasleep)
        (sleepsOn_write (WriteCall.step_pc hasleep))
    exact ⟨rfl, rfl, hgo.other, hgo.before, hgo.after⟩
  | @writeDone t c hcall hlast =>
    have hgo : GoesOn s (s.setCall t .none) t :=
      GoesOn.setCall (by rw [hcall]; exact sleepsOn_write (by simp [hlast])) rfl
    exact ⟨rfl, rfl, hgo.other, hgo.before, hgo.after⟩
  | @read t c hcall hwait hasleep hlast =>
    have hgo : GoesOn s (s.setCall t (.read (c.step s.rx).2)) t :=
      GoesOn.setCall (by rw [hcall]; exact sleepsOn_read hasleep)
        (sleepsOn_read (ReadCall.step_pc hasleep))
    exact ⟨rfl, rfl, hgo.other, hgo.before, hgo.after⟩
  | @readDone t c hcall hlast =>
    have hgo : GoesOn s (s.setCall t .none) t :=
      GoesOn.setCall (by rw [hcall]; exact sleepsOn_read (by simp [hlast])) rfl
    exact ⟨rfl, rfl, hgo.other, hgo.before, hgo.after⟩
  | @kbd t c hcall hwait hasleep hlast =>
    have hgo : GoesOn s (s.setCall t (.kbd (c.step s.keyboard).2)) t :=
      GoesOn.setCall (by rw [hcall]; exact sleepsOn_kbd hasleep)
        (sleepsOn_kbd (KbdCall.step_pc hasleep))
    exact ⟨rfl, rfl, hgo.other, hgo.before, hgo.after⟩
  | @kbdDone t c hcall hlast =>
    exact GoesOn.setCall (by rw [hcall]; exact sleepsOn_kbd (by simp [hlast])) rfl

/-- A call that starts. -/
lemma goesOn_start {t : Nat} {c : Call} (hidle : s.call t = .none) (hc : c.sleepsOn = .none) :
    GoesOn s (s.setCall t c) t :=
  GoesOn.setCall (by rw [hidle]; rfl) hc

/-- The sleeping threads are those in the wait queues and those noted. -/
theorem Registered.step (h : Registered s) (hstep : s.Step a s') : Registered s' := by
  cases hstep with
  | refused => exact h
  | @startWrite t whole hidle hne =>
    have hgo := goesOn_start (c := .write ⟨.waitTest, whole, whole.length, 0, whole⟩) hidle rfl
    exact (hgo.registered h).device rfl rfl rfl
  | startRead hidle | startKbd hidle => exact (goesOn_start hidle rfl).registered h
  | sleep hwaits => exact h.threadIoWait hwaits
  | noItem hwaits =>
    exact (GoesOn.setCall (sleepsOn_of_waitsOn hwaits) (sleepsOn_retry _)).registered h
  | resume => exact h.resumeOnIoWait
  | receive => exact h.device rfl rfl rfl
  | txHoldEmpty | recvDataAvail | charTimeout | keyboard =>
    apply Registered.threadIoResume
    exact h.device rfl rfl rfl
  | write hcall hwait hasleep hlast =>
    exact (goesOn_of_step (.write hcall hwait hasleep hlast)
      (by rw [hcall]; exact fun q => waitsOn_write_ne hwait q)).registered h
  | writeDone hcall hlast =>
    exact (goesOn_of_step (.writeDone hcall hlast)
      (by rw [hcall]; exact fun q => waitsOn_write_ne (by simp [hlast]) q)).registered h
  | read hcall hwait hasleep hlast =>
    exact (goesOn_of_step (.read hcall hwait hasleep hlast)
      (by rw [hcall]; exact fun q => waitsOn_read_ne hwait q)).registered h
  | readDone hcall hlast =>
    exact (goesOn_of_step (.readDone hcall hlast)
      (by rw [hcall]; exact fun q => waitsOn_read_ne (by simp [hlast]) q)).registered h
  | kbd hcall hwait hasleep hlast =>
    exact (goesOn_of_step (.kbd hcall hwait hasleep hlast)
      (by rw [hcall]; exact fun q => waitsOn_kbd_ne hwait q)).registered h
  | kbdDone hcall hlast =>
    exact (goesOn_of_step (.kbdDone hcall hlast)
      (by rw [hcall]; exact fun q => waitsOn_kbd_ne (by simp [hlast]) q)).registered h

/-- A handler wakes those who are blocked on its queue. -/
lemma noLostWakeUp_handler (h : Registered s) {q : WaitQueue}
    (hs : ∀ q', q' ≠ q → s.Blocked q' → s.Quiet q') : (s.threadIoResume q).NoLostWakeUp := by
  apply noLostWakeUp_iff.mpr
  intro q' hblocked
  obtain ⟨hq, hbefore⟩ := blocked_threadIoResume h hblocked
  have hquiet := hs q' hq hbefore
  cases q' with
  | readers | writers | keyboard => exact hquiet

/-- A thread goes to sleep with its wake-up still to come. -/
lemma noLostWakeUp_sleep (h : Registered s) (hs : s.NoLostWakeUp) {t : Nat} {q : WaitQueue}
    (hwaits : (s.call t).waitsOn = some q) :
    (s.threadIoWait t q).NoLostWakeUp ↔ s.Quiet q := by
  have hquiet : ∀ q', (s.threadIoWait t q).Quiet q' ↔ s.Quiet q' := by
    intro q'
    cases q' with
    | readers | writers | keyboard => exact Iff.rfl
  rw [noLostWakeUp_iff]
  constructor
  · intro hall
    exact (hquiet q).mp (hall q ((blocked_threadIoWait h hwaits q).mpr (.inl rfl)))
  · intro hq q' hblocked
    rw [hquiet]
    rcases (blocked_threadIoWait h hwaits q').mp hblocked with rfl | hbefore
    · exact hq
    · exact noLostWakeUp_iff.mp hs q' hbefore

lemma settled_sleep {t : Nat} {q : WaitQueue} (hwaits : (s.call t).waitsOn = some q) :
    Settled s (.statement t) ↔ s.Quiet q := by
  cases hcall : s.call t with
  | none =>
    rw [hcall] at hwaits
    cases hwaits
  | write c =>
    rw [hcall] at hwaits
    obtain ⟨pc, buf, bytes, retval, whole⟩ := c
    cases pc with
    | ioWait =>
      cases hwaits
      rw [Settled, hcall]
      exact Iff.rfl
    | _ => cases hwaits
  | read c =>
    rw [hcall] at hwaits
    obtain ⟨pc, bytes, ret, dest⟩ := c
    cases pc with
    | ioWait =>
      cases hwaits
      rw [Settled, hcall]
      exact Iff.rfl
    | _ => cases hwaits
  | kbd c =>
    rw [hcall] at hwaits
    obtain ⟨pc, bytes, count, dest⟩ := c
    cases pc with
    | ioWait =>
      cases hwaits
      rw [Settled, hcall]
      exact Iff.rfl
    | _ => cases hwaits

/-- A step loses a wake-up exactly where a thread registers too late or moves a position. -/
lemma noLostWakeUp_step (h : Registered s) (hs : s.NoLostWakeUp) (hstep : s.Step a s') :
    s'.NoLostWakeUp ↔ Settled s a := by
  have hall := noLostWakeUp_iff.mp hs
  cases hstep with
  | refused hother =>
    cases a with
    | statement t => exact absurd rfl (hother t)
    | _ => exact iff_of_true hs trivial
  | @startWrite t whole hidle hne =>
    have hgo := goesOn_start (c := .write ⟨.waitTest, whole, whole.length, 0, whole⟩) hidle rfl
    have hnext := hgo.noLostWakeUp_same hs fun q => Iff.rfl
    exact iff_of_true ⟨hnext.readers, hnext.writers, hnext.keyboard⟩ trivial
  | startRead hidle | startKbd hidle =>
    exact iff_of_true ((goesOn_start hidle rfl).noLostWakeUp_same hs fun q => Iff.rfl) trivial
  | sleep hwaits => exact (noLostWakeUp_sleep h hs hwaits).trans (settled_sleep hwaits).symm
  | @noItem t q hwaits =>
    have hgo := GoesOn.setCall (sleepsOn_of_waitsOn hwaits) (sleepsOn_retry (s.call t))
    exact iff_of_true (hgo.noLostWakeUp_same hs fun q => Iff.rfl) trivial
  | resume =>
    refine iff_of_true (noLostWakeUp_iff.mpr fun q hblocked => ?_) trivial
    have hquiet := hall q (blocked_resumeOnIoWait hblocked)
    cases q with
    | readers | writers | keyboard => exact hquiet
  | receive => exact iff_of_true ⟨hs.readers, hs.writers, hs.keyboard⟩ trivial
  | txHoldEmpty =>
    refine iff_of_true ?_ trivial
    apply noLostWakeUp_handler
    · exact h.device rfl rfl rfl
    intro q hq hblocked
    cases q with
    | readers => exact hall .readers hblocked
    | writers => exact absurd rfl hq
    | keyboard => exact hall .keyboard hblocked
  | recvDataAvail | charTimeout =>
    refine iff_of_true ?_ trivial
    apply noLostWakeUp_handler
    · exact h.device rfl rfl rfl
    intro q hq hblocked
    cases q with
    | readers => exact absurd rfl hq
    | writers => exact hall .writers hblocked
    | keyboard => exact hall .keyboard hblocked
  | keyboard =>
    refine iff_of_true ?_ trivial
    apply noLostWakeUp_handler
    · exact h.device rfl rfl rfl
    intro q hq hblocked
    cases q with
    | readers => exact hall .readers hblocked
    | writers => exact hall .writers hblocked
    | keyboard => exact absurd rfl hq
  | @write t c hcall hwait hasleep hlast =>
    have hgo := goesOn_of_step (.write hcall hwait hasleep hlast)
      (by rw [hcall]; exact fun q => waitsOn_write_ne hwait q)
    have hone := hgo.noLostWakeUp_one hs (q := .writers) fun q hq => by
      cases q with
      | writers => exact absurd rfl hq
      | readers | keyboard => exact Iff.rfl
    refine hone.trans ((WriteCall.settled_iff hs hwait).trans ?_)
    rw [Settled, hcall]
  | @writeDone t c hcall hlast =>
    have hgo := goesOn_of_step (.writeDone hcall hlast)
      (by rw [hcall]; exact fun q => waitsOn_write_ne (by simp [hlast]) q)
    refine iff_of_true (hgo.noLostWakeUp_same hs fun q => Iff.rfl) ?_
    simp only [Settled, hcall, WriteCall.Settled, hlast]
  | @read t c hcall hwait hasleep hlast =>
    have hgo := goesOn_of_step (.read hcall hwait hasleep hlast)
      (by rw [hcall]; exact fun q => waitsOn_read_ne hwait q)
    have hone := hgo.noLostWakeUp_one hs (q := .readers) fun q hq => by
      cases q with
      | readers => exact absurd rfl hq
      | writers | keyboard => exact Iff.rfl
    refine hone.trans ((ReadCall.settled_iff hs hwait).trans ?_)
    rw [Settled, hcall]
  | @readDone t c hcall hlast =>
    have hgo := goesOn_of_step (.readDone hcall hlast)
      (by rw [hcall]; exact fun q => waitsOn_read_ne (by simp [hlast]) q)
    refine iff_of_true (hgo.noLostWakeUp_same hs fun q => Iff.rfl) ?_
    simp only [Settled, hcall, ReadCall.Settled, hlast]
  | @kbd t c hcall hwait hasleep hlast =>
    have hgo := goesOn_of_step (.kbd hcall hwait hasleep hlast)
      (by rw [hcall]; exact fun q => waitsOn_kbd_ne hwait q)
    have hone := hgo.noLostWakeUp_one hs (q := .keyboard) fun q hq => by
      cases q with
      | keyboard => exact absurd rfl hq
      | readers | writers => exact Iff.rfl
    refine hone.trans ((KbdCall.settled_iff hs hwait).trans ?_)
    rw [Settled, hcall]
  | @kbdDone t c hcall hlast =>
    have hgo := goesOn_of_step (.kbdDone hcall hlast)
      (by rw [hcall]; exact fun q => waitsOn_kbd_ne (by simp [hlast]) q)
    refine iff_of_true (hgo.noLostWakeUp_same hs fun q => Iff.rfl) ?_
    simp only [Settled, hcall, KbdCall.Settled, hlast]

/-! ## Whole runs -/

lemma Registered.start : Registered .start :=
  ⟨nofun, nofun, nofun⟩

/-- No wake-up is lost up to the first thread that registers too late. -/
theorem wake_ups (hrun : PartialRuns Machine.exec Settled .start s) :
    s.NoLostWakeUp ∧ ∀ a s', s.exec a = some s' → (s'.NoLostWakeUp ↔ Settled s a) := by
  have hkept : Registered s ∧ s.NoLostWakeUp := by
    refine hrun.invariant (P := fun s => Registered s ∧ s.NoLostWakeUp) ?_
      ⟨Registered.start, nofun, nofun, nofun⟩
    intro s a s' h hok hexec
    have hstep := Machine.step_of_exec hexec
    exact ⟨h.1.step hstep, (noLostWakeUp_step h.1 h.2 hstep).mpr hok⟩
  refine ⟨hkept.2, fun a s' hexec => ?_⟩
  exact noLostWakeUp_step hkept.1 hkept.2 (Machine.step_of_exec hexec)

/-- A reader that sleeps on an empty ring is woken by the byte that comes. -/
theorem wake_ups_reader : ∃ s : Machine, (s.call 1).sleepsOn = some .readers ∧
    s.threadIds 1 = true ∧ s.NoLostWakeUp := by
  have hcall : PartialRuns Machine.exec Settled .start _ :=
    (PartialRuns.refl _).tail (i := .uartRead 1 true 4 0) trivial rfl
  have htest := hcall.tail (i := .statement 1) trivial rfl
  have hsleep := htest.tail (i := .statement 1) rfl rfl
  have hbyte := hsleep.tail (i := .receive 9) trivial rfl
  have hwoken := hbyte.tail (i := .charTimeout) trivial rfl
  exact ⟨_, rfl, rfl, (wake_ups hwoken).1⟩

/-- A byte comes between the test and the registration, and the reader sleeps beside it. -/
theorem wake_ups_broken :
    ¬∀ s, PartialRuns Machine.exec (fun _ _ => True) .start s → s.NoLostWakeUp := by
  intro hclaim
  have hcall : PartialRuns Machine.exec (fun _ _ => True) .start _ :=
    (PartialRuns.refl _).tail (i := .uartRead 1 true 4 0) trivial rfl
  have htest := hcall.tail (i := .statement 1) trivial rfl
  have hbyte := htest.tail (i := .receive 9) trivial rfl
  have hstored := hbyte.tail (i := .charTimeout) trivial rfl
  have hsleep := hstored.tail (i := .statement 1) trivial rfl
  rcases (hclaim _ hsleep).readers 1 rfl with hempty | hpending
  · cases hempty
  · cases hpending

end DiegOS.Drivers
