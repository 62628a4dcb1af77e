import DiegOS.Drivers.PollCalls

/-!
# What poll tells

`poll` wakes up for events that nobody asked for, reads the rings before it returns, and
leaves its wake-ups behind.  Its answers are right as long as none of these matters.

Main results:

- Theorem `PollCall.Exact.steady`: what the second loop has counted stays right while the
  rings do not change it.
- Theorem `PollSystem.Sound.exec`: each step keeps the account of the calls and wake-ups.
- Theorem `poll_truth`: `poll` tells the truth in every run of calm steps.
- Theorem `poll_truth_broken`: a call without a time-out times out.
-/

namespace DiegOS.Drivers

open Function

open Kernel (OPEN_MAX THREAD_TID_IDLE WaitItem)
open Lib (PartialRuns checkedRun)

variable {u u' : Uart} {c c' : PollCall} {s s' : PollSystem} {t : Nat}

/-! ## The property -/

/-- An answer of `poll` is right. -/
structure PollAnswer.Truthful (a : PollAnswer) : Prop where
  negative : a.timeout < 0 → a.value ≠ ETIMEDOUT
  positive : 0 < a.timeout → a.value = ETIMEDOUT → (a.start : Int) + a.timeout ≤ a.finish
  count : 0 < a.value → a.value = a.ready

/-- An error other than `ETIMEDOUT` is a right answer. -/
lemma PollAnswer.truthful_of_error {a : PollAnswer} (hne : a.value ≠ ETIMEDOUT)
    (hle : a.value ≤ 0) : a.Truthful :=
  ⟨fun _ => hne, fun _ heq => absurd heq hne, fun hpos => absurd hpos (Int.not_lt.mpr hle)⟩

/-- The answers are right, and the bits of `poll.c` end only the waits they were set for. -/
structure PollSystem.Truthful (s : PollSystem) : Prop where
  answers : ∀ a ∈ s.answers, a.Truthful
  wakeUps : ∀ x ∈ s.ended, x.2 = some x.1

/-! ## The condition -/

/-- A requested event is there. -/
def PollCall.Wanted (c : PollCall) (u : Uart) : Prop := ∃ fd ∈ c.ufds, fd.ready u = true

/-- The call counts on an event: its table is signalled, or the events read for the entry it is at
will signal it, until the second loop has found one or does not need it. -/
def PollCall.Noticed (c : PollCall) (signalled : Bool) : Prop :=
  match c.pc with
  | .first _ | .decide | .wait | .asleep => signalled = true
  | .firstTx i ret | .register _ i ret | .setFields _ i ret _ | .firstStore i ret =>
    signalled = true ∨ ret &&& ((c.ufds[i]?).elim 0 PollFd.revents) ≠ 0
  | .second _ | .secondTx _ _ | .secondStore _ _ =>
    c.timeout ≠ 0 ∧ c.expired = false ∧ c.retvalue = 0
  | .cleanup _ => False

/-- The entries that the second loop has read. -/
def PollCall.seen (c : PollCall) : List PollFd :=
  match c.pc with
  | .second i => c.ufds.take i
  | .secondTx i _ | .secondStore i _ => c.ufds.take (i + 1)
  | .cleanup .none => c.ufds
  | _ => []

/-- The requested events of an entry are there before a change of the rings and behind it, or
neither. -/
def PollFd.Same (u u' : Uart) (fd : PollFd) : Prop :=
  (u'.rxEvents &&& fd.revents ≠ 0 ↔ u.rxEvents &&& fd.revents ≠ 0) ∧
    (u'.txEvents &&& fd.revents ≠ 0 ↔ u.txEvents &&& fd.revents ≠ 0)

/-- A change of the rings does not take away the last event that a call counts on, and changes
nothing for the entries that the second loop has read. -/
structure PollCall.Steady (c : PollCall) (signalled : Bool) (u u' : Uart) : Prop where
  wanted : c.Noticed signalled → c.Wanted u → c.Wanted u'
  same : ∀ fd ∈ c.seen, fd.unitno = some 0 → fd.Same u u'

/-- No call of `poll` is disturbed by a change of the rings. -/
def PollSystem.Undisturbed (s : PollSystem) (u : Uart) : Prop :=
  ∀ t c, s.call t = .poll c → c.Steady (s.table c.table).signalled s.uart u

/-- The items that `thread_io_resume` meets. -/
def PollSystem.met (s : PollSystem) (q : WaitQueue) : List QueueItem :=
  (s.queue q).items.take (s.queue q).counter

/-- The fields of the items that are about to be resumed are set, and no call is woken that waits
for other events than those of the rings. -/
structure PollSystem.Welcome (s : PollSystem) (q : WaitQueue) (u : Uart) : Prop where
  set : ∀ x ∈ s.met q, x.set = true
  wanted : ∀ x ∈ s.met q, ∀ t c, s.call t = .poll c → x.item = .poll c.table →
    c.Noticed true → c.Wanted u

/-- The next statement of a call would add an item whose memory is linked, or set or remove one
that is linked in another wait queue. -/
def PollCall.shares (s : PollSystem) (offer : Option (Nat × WaitItem)) (c : PollCall) : Bool :=
  match c.pc with
  | .register _ _ _ => offer.any fun x => s.linked x.1
  | .setFields q _ _ a => s.linkedElsewhere q a
  | .cleanup _ => (s.table c.table).items.head?.any fun x => s.linkedElsewhere x.2 x.1
  | _ => false

/-- A call goes to sleep without the wake-up of an older call, and uses items of its own. -/
def PollCall.Calm (s : PollSystem) (t : Nat) (offer : Option (Nat × WaitItem)) (c : PollCall) :
    Prop :=
  c.shares s offer = false ∧
    (c.pc = .wait → t ≠ THREAD_TID_IDLE → ∀ x ∈ s.pollIds, x.1 = t → x.2 = c.table)

/-- The next statement of a thread is calm. -/
def PollSystem.CalmStatement (s : PollSystem) (t : Nat) (offer : Option (Nat × WaitItem)) : Prop :=
  match s.call t with
  | .poll c => c.Calm s t offer
  | _ => True

/-- Threads go to sleep without an older wake-up, items are not shared, only events that have been
asked for wake a call, and the rings keep them. -/
def PollSystem.Calm (s : PollSystem) : PollAction → Prop
  | .statement t offer => s.CalmStatement t offer
  | .ioWait t _ _ a => s.linked a = false ∧ (t ≠ THREAD_TID_IDLE → s.pollBit t = false)
  | .resumeOnIoWait => ∀ t c, s.ioIds t = true → s.call t = .poll c → s.state t = .ready
  | .threadIoResume q => s.Welcome q s.uart
  | .txHoldEmpty =>
    let u := { s.uart with tx := uartHandleTxData s.uart.tx }
    s.Undisturbed u ∧ s.Welcome .writers u
  | .recvDataAvail =>
    let u := { s.uart with rx := uartHandleRecvDataFifo s.uart.rx }
    s.Undisturbed u ∧ s.Welcome .readers u
  | .charTimeout =>
    let u := { s.uart with rx := uartHandleRecvDataTimeout s.uart.rx }
    s.Undisturbed u ∧ s.Welcome .readers u
  | .rings u => s.Undisturbed u
  | _ => True

/-! ## The second loop -/

/-- What the second loop has counted. -/
def PollCall.Exact (c : PollCall) (u : Uart) : Prop :=
  match c.pc with
  | .second i => c.retvalue = countReady u (c.ufds.take i)
  | .secondTx i ret =>
    c.retvalue = countReady u (c.ufds.take i) ∧ ∃ fd, c.ufds[i]? = some fd ∧
      fd.unitno = some 0 ∧ (ret &&& fd.revents ≠ 0 ↔ u.rxEvents &&& fd.revents ≠ 0)
  | .secondStore i ret =>
    c.retvalue = countReady u (c.ufds.take i) ∧ ∃ fd, c.ufds[i]? = some fd ∧
      (ret &&& fd.revents ≠ 0 ↔ fd.ready u = true)
  | .cleanup .none =>
    c.retvalue = countReady u c.ufds ∧ (c.timeout = 0 ∨ c.expired = true ∨ c.retvalue ≠ 0)
  | .cleanup (some value) => value = EPERM
  | _ => c.retvalue = 0

/-- What a call knows of the rings. -/
structure PollCall.Kept (c : PollCall) (signalled : Bool) (u : Uart) : Prop where
  wanted : c.Noticed signalled → c.Wanted u
  unit : ∀ i ret, c.pc = .firstTx i ret → ∃ fd, c.ufds[i]? = some fd ∧ fd.unitno = some 0
  exact : c.Exact u

lemma or_and_ne_zero (a b r : UInt16) :
    (a ||| b) &&& r ≠ 0 ↔ a &&& r ≠ 0 ∨ b &&& r ≠ 0 := by
  have hdistrib : (a ||| b) &&& r = (a &&& r) ||| (b &&& r) :=
    UInt16.toBitVec_inj.mp (by simp [BitVec.and_or_distrib_right])
  rw [hdistrib, ne_eq, UInt16.or_eq_zero_iff, not_and_or]

lemma ready_iff {fd : PollFd} : fd.ready u = true ↔ fd.unitno = some 0 ∧
    (u.rxEvents &&& fd.revents ≠ 0 ∨ u.txEvents &&& fd.revents ≠ 0) := by
  simp [PollFd.ready, ← or_and_ne_zero]

lemma ready_of_unit_ne {fd : PollFd} (h : fd.unitno ≠ some 0) : fd.ready u = false := by
  simp [PollFd.ready, h]

/-- The same entries have requested events. -/
lemma ready_same {fd : PollFd} (h : fd.unitno = some 0 → fd.Same u u') :
    fd.ready u' = fd.ready u := by
  rw [Bool.eq_iff_iff, ready_iff, ready_iff]
  refine and_congr_right fun hunit => ?_
  rw [(h hunit).1, (h hunit).2]

lemma countReady_same {l : List PollFd} (h : ∀ fd ∈ l, fd.unitno = some 0 → fd.Same u u') :
    countReady u' l = countReady u l :=
  List.countP_congr fun fd hfd => by rw [ready_same (h fd hfd)]

/-- One more entry of the second loop. -/
lemma countReady_take_succ {l : List PollFd} {i : Nat} {fd : PollFd} (h : l[i]? = some fd) :
    countReady u (l.take (i + 1)) = countReady u (l.take i) + if fd.ready u then 1 else 0 := by
  rw [countReady, List.take_add_one, h, List.countP_append]
  simp [countReady, List.countP_cons]

/-- What the second loop has counted stays right while the rings keep the entries it has read. -/
theorem PollCall.Exact.steady (h : c.Exact u)
    (hsame : ∀ fd ∈ c.seen, fd.unitno = some 0 → fd.Same u u') : c.Exact u' := by
  have hcount : ∀ i fd, c.ufds[i]? = some fd → c.seen = c.ufds.take (i + 1) →
      countReady u' (c.ufds.take i) = countReady u (c.ufds.take i) ∧
        (fd.unitno = some 0 → fd.Same u u') := by
    intro i fd hfd hseen
    rw [hseen] at hsame
    constructor
    · exact countReady_same fun x hx => hsame x (List.take_subset_take_left _ (Nat.le_succ i) hx)
    · apply hsame
      rw [List.take_add_one, hfd]
      simp
  unfold PollCall.Exact PollCall.seen at *
  cases hpc : c.pc with
  | second i =>
    simp only [hpc] at h hsame ⊢
    exact h.trans (countReady_same hsame).symm
  | secondTx i ret =>
    simp only [hpc] at h hcount ⊢
    obtain ⟨hret, fd, hfd, hunit, hread⟩ := h
    have hkept := hcount i fd hfd rfl
    exact ⟨hret.trans hkept.1.symm, fd, hfd, hunit, hread.trans (hkept.2 hunit).1.symm⟩
  | secondStore i ret =>
    simp only [hpc] at h hcount ⊢
    obtain ⟨hret, fd, hfd, hread⟩ := h
    have hkept := hcount i fd hfd rfl
    refine ⟨hret.trans hkept.1.symm, fd, hfd, ?_⟩
    rw [ready_same hkept.2]
    exact hread
  | cleanup value =>
    cases value with
    | none =>
      simp only [hpc] at h hsame ⊢
      exact ⟨h.1.trans (countReady_same hsame).symm, h.2⟩
    | some value => simpa only [hpc] using h
  | _ => simpa only [hpc] using h

lemma PollCall.Kept.steady {b : Bool} (h : c.Kept b u) (hsteady : c.Steady b u u') :
    c.Kept b u' :=
  ⟨fun hnoticed => hsteady.wanted hnoticed (h.wanted hnoticed), h.unit,
    h.exact.steady hsteady.same⟩

/-! ## Statements of one call -/

/-- The call goes on in the same loop. -/
structure PollCall.Follows (c c' : PollCall) : Prop where
  ufds : c'.ufds = c.ufds
  timeout : c'.timeout = c.timeout
  table : c'.table = c.table
  start : c'.start = c.start

section Statements

variable {b : Bool} {i : Nat} {ret : UInt16} {fd : PollFd}

lemma wanted_of_get (hfd : c.ufds[i]? = some fd) (hready : fd.ready u = true) : c.Wanted u :=
  ⟨fd, List.mem_of_getElem? hfd, hready⟩

/-- `fdget` and the test of the receiver's ring, in the first loop. -/
lemma PollCall.Kept.first (h : c.Kept b u) (hpc : c.pc = .first i) (hfd : c.ufds[i]? = some fd) :
    PollCall.Kept { c with
      pc := match fd.unitno with
        | .none => .first (i + 1)
        | some 0 => .firstTx i u.rxEvents
        | some _ => .firstStore i 0 } b u := by
  have hwanted := h.wanted
  have hexact := h.exact
  simp only [PollCall.Noticed, PollCall.Exact, hpc] at hwanted hexact
  cases hunit : fd.unitno with
  | none => exact ⟨hwanted, fun _ _ => nofun, hexact⟩
  | some unit =>
    cases unit with
    | zero =>
      refine ⟨?_, ?_, hexact⟩
      · rintro (hb | hrx)
        · exact hwanted hb
        · dsimp only at hrx
          rw [hfd, Option.elim_some] at hrx
          exact wanted_of_get hfd (ready_iff.mpr ⟨hunit, .inl hrx⟩)
      · intro j ret heq
        cases heq
        exact ⟨fd, hfd, hunit⟩
    | succ n =>
      refine ⟨?_, fun _ _ => nofun, hexact⟩
      rintro (hb | hnone)
      · exact hwanted hb
      · exact absurd (UInt16.zero_and) hnone

/-- The test of the transmitter's ring, in the first loop. -/
lemma PollCall.Kept.firstTx (h : c.Kept b u) (hpc : c.pc = .firstTx i ret) :
    PollCall.Kept { c with pc := .register .readers i (ret ||| u.txEvents) } b u := by
  obtain ⟨fd, hfd, hunit⟩ := h.unit i ret hpc
  have hwanted := h.wanted
  have hexact := h.exact
  simp only [PollCall.Noticed, PollCall.Exact, hpc, hfd, Option.elim_some] at hwanted hexact
  refine ⟨?_, fun _ _ => nofun, hexact⟩
  rintro (hb | hfound)
  · exact hwanted (.inl hb)
  · dsimp only at hfound
    rw [hfd, Option.elim_some, or_and_ne_zero] at hfound
    rcases hfound with hrx | htx
    · exact hwanted (.inr hrx)
    · exact wanted_of_get hfd (ready_iff.mpr ⟨hunit, .inr htx⟩)

/-- The registrations for the events of an entry. -/
lemma PollCall.Kept.goOn {pc : PollPc} (h : c.Kept b u)
    (hnoticed : PollCall.Noticed { c with pc := pc } b → c.Noticed b)
    (hpc : ∀ i ret, pc ≠ .firstTx i ret) (hexact : PollCall.Exact { c with pc := pc } u) :
    PollCall.Kept { c with pc := pc } b u :=
  ⟨fun hafter => h.wanted (hnoticed hafter), fun i ret heq => absurd heq (hpc i ret), hexact⟩

lemma PollCall.Kept.register {q : WaitQueue} (h : c.Kept b u)
    (hpc : c.pc = .register q i ret ∨ ∃ a, c.pc = .setFields q i ret a) :
    PollCall.Kept { c with pc := PollSystem.afterRegister q i ret } b u := by
  have hexact := h.exact
  have hnoticed : c.Noticed b ↔
      b = true ∨ ret &&& ((c.ufds[i]?).elim 0 PollFd.revents) ≠ 0 := by
    unfold PollCall.Noticed
    rcases hpc with hpc | ⟨a, hpc⟩ <;> rw [hpc]
  have hzero : c.retvalue = 0 := by
    rcases hpc with hpc | ⟨a, hpc⟩ <;> simpa only [PollCall.Exact, hpc] using hexact
  unfold PollSystem.afterRegister
  split
  · exact h.goOn hnoticed.mpr (fun _ _ => nofun) hzero
  · exact h.goOn hnoticed.mpr (fun _ _ => nofun) hzero

/-- `fdget` and the test of the receiver's ring, in the second loop. -/
lemma PollCall.Kept.second (h : c.Kept b u) (hpc : c.pc = .second i)
    (hfd : c.ufds[i]? = some fd) :
    PollCall.Kept { c with
      pc := match fd.unitno with
        | .none => .second (i + 1)
        | some 0 => .secondTx i u.rxEvents
        | some _ => .secondStore i 0 } b u := by
  have hexact := h.exact
  simp only [PollCall.Exact, hpc] at hexact
  have hnoticed : c.Noticed b ↔ c.timeout ≠ 0 ∧ c.expired = false ∧ c.retvalue = 0 := by
    rw [PollCall.Noticed, hpc]
  cases hunit : fd.unitno with
  | none =>
    have hready : fd.ready u = false := ready_of_unit_ne (by simp [hunit])
    refine h.goOn hnoticed.mpr (fun _ _ => nofun) ?_
    simp only [PollCall.Exact, countReady_take_succ hfd, hready]
    exact hexact
  | some unit =>
    cases unit with
    | zero =>
      exact h.goOn hnoticed.mpr (fun _ _ => nofun) ⟨hexact, fd, hfd, hunit, Iff.rfl⟩
    | succ n =>
      have hready : fd.ready u = false := ready_of_unit_ne (by simp [hunit])
      refine h.goOn hnoticed.mpr (fun _ _ => nofun) ⟨hexact, fd, hfd, ?_⟩
      rw [hready]
      simp

/-- The second loop ends. -/
lemma PollCall.Kept.cleanup (h : c.Kept b u) (hpc : c.pc = .second i)
    (hend : c.ufds[i]? = none) : PollCall.Kept { c with pc := .cleanup .none } b u := by
  have hexact := h.exact
  have hwanted := h.wanted
  simp only [PollCall.Exact, PollCall.Noticed, hpc] at hexact hwanted
  rw [List.take_of_length_le (List.getElem?_eq_none_iff.mp hend)] at hexact
  refine h.goOn False.elim (fun _ _ => nofun) ⟨hexact, ?_⟩
  by_contra hnone
  simp only [not_or, Bool.not_eq_true, not_not] at hnone
  -- an event that is there has been counted
  obtain ⟨fd, hmem, hready⟩ := hwanted ⟨hnone.1, hnone.2.1, hnone.2.2⟩
  have hpos : 0 < countReady u c.ufds := List.countP_pos_iff.mpr ⟨fd, hmem, hready⟩
  have hzero : c.retvalue = 0 := hnone.2.2
  omega

/-- The test of the transmitter's ring, in the second loop. -/
lemma PollCall.Kept.secondTx (h : c.Kept b u) (hpc : c.pc = .secondTx i ret) :
    PollCall.Kept { c with pc := .secondStore i (ret ||| u.txEvents) } b u := by
  have hexact := h.exact
  simp only [PollCall.Exact, hpc] at hexact
  obtain ⟨hret, fd, hfd, hunit, hread⟩ := hexact
  refine h.goOn (fun hnoticed => ?_) (fun _ _ => nofun) ⟨hret, fd, hfd, ?_⟩
  · rw [PollCall.Noticed, hpc]
    exact hnoticed
  · rw [or_and_ne_zero, hread, ready_iff, and_iff_right hunit]

/-- An entry is counted. -/
lemma PollCall.Kept.secondStore {events : Nat → UInt16} (h : c.Kept b u)
    (hpc : c.pc = .secondStore i ret) :
    PollCall.Kept { c with
      pc := .second (i + 1)
      events := events
      retvalue := if ret &&& ((c.ufds[i]?).elim 0 PollFd.revents) ≠ 0 then c.retvalue + 1
        else c.retvalue } b u := by
  have hexact := h.exact
  have hwanted := h.wanted
  simp only [PollCall.Exact, PollCall.Noticed, hpc] at hexact hwanted
  obtain ⟨hret, fd, hfd, hread⟩ := hexact
  rw [hfd, Option.elim_some]
  refine ⟨?_, fun _ _ => nofun, ?_⟩
  · intro hnoticed
    simp only [PollCall.Noticed] at hnoticed
    refine hwanted ⟨hnoticed.1, hnoticed.2.1, ?_⟩
    have hzero := hnoticed.2.2
    split at hzero <;> omega
  · simp only [PollCall.Exact]
    rw [countReady_take_succ hfd, ← hret]
    by_cases hready : fd.ready u = true
    · rw [if_pos (hread.mpr hready), if_pos hready]
    · rw [if_neg (hread.not.mpr hready), if_neg hready]
      rfl

end Statements

/-! ## The system -/

namespace PollSystem

/-- A call that has this table is made by a thread. -/
def Active (s : PollSystem) (t p : Nat) : Prop := ∃ c, s.call t = .poll c ∧ c.table = p

/-- What the wait of a thread tells: no wake-up of an older call is there, and it is not woken
before its time. -/
def Rests (s : PollSystem) (t : Nat) (delay : Option Nat) : Prop :=
  match s.call t with
  | .poll c =>
    c.pc = .asleep ∧ (∀ x ∈ s.pollIds, x.1 = t → x.2 = c.table) ∧
      ∀ d, delay = some d → 0 < c.timeout ∧ (c.start : Int) + c.timeout ≤ d
  | .ioWait => ∀ x ∈ s.pollIds, x.1 ≠ t
  | .none => False

/-- What a call of `poll` tells. -/
structure Calls (s : PollSystem) (t : Nat) (c : PollCall) : Prop where
  tid : (s.table c.table).tid = t
  table : c.table < s.tables
  start : c.start ≤ s.now
  expired : c.expired = true → 0 < c.timeout ∧ (c.start : Int) + c.timeout ≤ s.now
  kept : c.Kept (s.table c.table).signalled s.uart

lemma Calls.of_eq (h : s.Calls t c) (htable : s'.table c.table = s.table c.table)
    (htables : s.tables ≤ s'.tables) (hnow : s.now ≤ s'.now) (huart : s'.uart = s.uart) :
    s'.Calls t c := by
  refine ⟨?_, h.table.trans_le htables, h.start.trans hnow, fun hexpired => ?_, ?_⟩
  · rw [htable]
    exact h.tid
  · have hdue := h.expired hexpired
    exact ⟨hdue.1, hdue.2.trans (Int.ofNat_le.mpr hnow)⟩
  · rw [htable, huart]
    exact h.kept

/-- The account of the calls and the wake-ups. -/
structure Sound (s : PollSystem) : Prop where
  listed : ∀ q x p, x ∈ (s.queue q).live → x.set = true → x.item = .poll p →
    s.Active (s.table p).tid p ∧ (x.addr, q) ∈ (s.table p).items
  rests : ∀ t delay, s.state t = .waiting delay → s.Rests t delay
  calls : ∀ t c, s.call t = .poll c → s.Calls t c
  bits : ∀ x ∈ s.pollIds, x.2 < s.tables ∧ (s.table x.2).signalled = true
  woken : ∀ t c, s.call t = .poll c → c.pc = .asleep → s.state t = .ready →
    c.expired = true ∨ (s.table c.table).signalled = true
  truthful : s.Truthful

namespace Sound

lemma start : PollSystem.start.Sound :=
  ⟨fun _ _ _ => nofun, fun _ _ => nofun, fun _ _ => nofun, nofun, fun _ _ => nofun, ⟨nofun, nofun⟩⟩

variable (h : s.Sound)
include h

/-- A call goes on, and its thread runs or waits. -/
lemma change (hcall : s.call t = .poll c) (c' : PollCall) (state : ThreadState)
    (hfollows : c.Follows c') (hexpired : c'.expired = true → c.expired = true ∨
      0 < c.timeout ∧ (c.start : Int) + c.timeout ≤ s.now)
    (hkept : c'.Kept (s.table c.table).signalled s.uart)
    (hrests : ∀ delay, state = .waiting delay → c'.pc = .asleep ∧
      (∀ x ∈ s.pollIds, x.1 = t → x.2 = c.table) ∧
        ∀ d, delay = some d → 0 < c.timeout ∧ (c.start : Int) + c.timeout ≤ d)
    (hwoken : state = .ready → c'.pc = .asleep →
      c'.expired = true ∨ (s.table c.table).signalled = true) :
    Sound { s.setCall t (.poll c') with state := update s.state t state } := by
  have hcalls := h.calls t c hcall
  have hother : ∀ t', t' ≠ t → update s.call t (.poll c') t' = s.call t' :=
    fun t' hne => update_of_ne hne _ _
  have hself : update s.call t (.poll c') t = .poll c' := update_self t _ _
  refine ⟨?_, ?_, ?_, h.bits, ?_, ⟨h.truthful.1, h.truthful.2⟩⟩
  · intro q x p hx hset hitem
    have hlisted := h.listed q x p hx hset hitem
    refine ⟨?_, hlisted.2⟩
    obtain ⟨c₀, hc₀, hp⟩ := hlisted.1
    by_cases heq : (s.table p).tid = t
    · rw [heq, hcall] at hc₀
      cases hc₀
      exact ⟨c', (congrArg _ heq).trans hself, hfollows.table.trans hp⟩
    · exact ⟨c₀, (hother _ heq).trans hc₀, hp⟩
  · intro t' delay hstate
    dsimp only at hstate
    unfold Rests
    dsimp only [setCall]
    by_cases heq : t' = t
    · rw [heq, update_self] at hstate
      rw [heq, hself]
      dsimp only
      rw [hfollows.table, hfollows.timeout, hfollows.start]
      exact hrests delay hstate
    · rw [update_of_ne heq] at hstate
      rw [hother t' heq]
      exact h.rests t' delay hstate
  · intro t' c₀ hc₀
    dsimp only [setCall] at hc₀
    by_cases heq : t' = t
    · rw [heq, hself] at hc₀
      cases hc₀
      rw [heq]
      refine ⟨?_, ?_, ?_, ?_, ?_⟩
      · rw [hfollows.table]
        exact hcalls.tid
      · rw [hfollows.table]
        exact hcalls.table
      · rw [hfollows.start]
        exact hcalls.start
      · rw [hfollows.timeout, hfollows.start]
        exact fun htrue => (hexpired htrue).elim hcalls.expired id
      · rw [hfollows.table]
        exact hkept
    · rw [hother t' heq] at hc₀
      exact (h.calls t' c₀ hc₀).of_eq rfl le_rfl le_rfl rfl
  · intro t' c₀ hc₀ hpc hready
    dsimp only [setCall] at hc₀ hready
    by_cases heq : t' = t
    · rw [heq, hself] at hc₀
      rw [heq, update_self] at hready
      cases hc₀
      dsimp only [setCall]
      rw [hfollows.table]
      exact hwoken hready hpc
    · rw [hother t' heq] at hc₀
      rw [update_of_ne heq] at hready
      exact h.woken t' c₀ hc₀ hpc hready

/-- A running call goes on. -/
lemma goOn (hready : s.state t = .ready) (hcall : s.call t = .poll c)
    (c' : PollCall) (hfollows : c.Follows c') (hexpired : c'.expired = c.expired)
    (hawake : c'.pc ≠ .asleep) (hkept : c'.Kept (s.table c.table).signalled s.uart) :
    (s.setCall t (.poll c')).Sound := by
  have hchanged := h.change hcall c' .ready hfollows (fun htrue => .inl (hexpired ▸ htrue)) hkept
    (fun _ => nofun) fun _ hpc => absurd hpc hawake
  rwa [← hready, update_eq_self] at hchanged

/-- The items of a wait queue change. -/
lemma setQueue (q : WaitQueue) (wq : ItemQueue)
    (hlisted : ∀ x p, x ∈ wq.live → x.set = true → x.item = .poll p →
      s.Active (s.table p).tid p ∧ (x.addr, q) ∈ (s.table p).items) :
    (s.setQueue q wq).Sound := by
  refine ⟨?_, h.rests, fun t c hcall => (h.calls t c hcall).of_eq rfl le_rfl le_rfl rfl, h.bits,
    h.woken, ⟨h.truthful.1, h.truthful.2⟩⟩
  intro q' x p hx hset hitem
  by_cases heq : q' = q
  · rw [heq] at hx ⊢
    have hqueue : (s.setQueue q wq).queue q = wq := update_self q _ _
    rw [hqueue] at hx
    exact hlisted x p hx hset hitem
  · have hqueue : (s.setQueue q wq).queue q' = s.queue q' := update_of_ne heq _ _
    rw [hqueue] at hx
    exact h.listed q' x p hx hset hitem

/-- A poll table changes. -/
lemma setTable (p : Nat) (pt : Table) (htid : pt.tid = (s.table p).tid)
    (hitems : ∀ q x, x ∈ (s.queue q).live → x.set = true → x.item = .poll p →
      (x.addr, q) ∈ (s.table p).items → (x.addr, q) ∈ pt.items)
    (hsignalled : (s.table p).signalled = true → pt.signalled = true)
    (hkept : ∀ t c, s.call t = .poll c → c.table = p → c.Kept pt.signalled s.uart) :
    (s.setTable p pt).Sound := by
  have hself : (s.setTable p pt).table p = pt := update_self p _ _
  have hother : ∀ p', p' ≠ p → (s.setTable p pt).table p' = s.table p' :=
    fun p' hne => update_of_ne hne _ _
  have hstays : ∀ p', (s.table p').signalled = true →
      ((s.setTable p pt).table p').signalled = true := by
    intro p' hold
    by_cases heq : p' = p
    · rw [heq] at hold ⊢
      rw [hself]
      exact hsignalled hold
    · rwa [hother p' heq]
  refine ⟨?_, h.rests, ?_, fun x hx => ⟨(h.bits x hx).1, hstays _ (h.bits x hx).2⟩, ?_,
    ⟨h.truthful.1, h.truthful.2⟩⟩
  · intro q x p' hx hset hitem
    have hlisted := h.listed q x p' hx hset hitem
    by_cases heq : p' = p
    · rw [heq] at hitem hlisted ⊢
      rw [hself, htid]
      exact ⟨hlisted.1, hitems q x hx hset hitem hlisted.2⟩
    · rw [hother p' heq]
      exact hlisted
  · intro t c hcall
    have hold := h.calls t c hcall
    by_cases heq : c.table = p
    · refine ⟨?_, hold.table, hold.start, hold.expired, ?_⟩
      · rw [heq, hself, htid, ← heq]
        exact hold.tid
      · rw [heq, hself]
        exact hkept t c hcall heq
    · exact hold.of_eq (hother c.table heq) le_rfl le_rfl rfl
  · intro t c hcall hpc hready
    exact (h.woken t c hcall hpc hready).imp_right (hstays _)

/-- The items of a poll table change. -/
lemma setItems (p : Nat) (items : List (Nat × WaitQueue))
    (hitems : ∀ q x, x ∈ (s.queue q).live → x.set = true → x.item = .poll p →
      (x.addr, q) ∈ (s.table p).items → (x.addr, q) ∈ items) :
    (s.setTable p { s.table p with items := items }).Sound := by
  refine h.setTable p _ rfl hitems id fun t c hcall hp => ?_
  rw [← hp]
  exact (h.calls t c hcall).kept

/-- A new item is added. -/
lemma append (q : WaitQueue) {x : QueueItem}
    (hnew : x.set = true → ∀ p, x.item ≠ .poll p) :
    (s.setQueue q ((s.queue q).append x)).Sound := by
  apply h.setQueue
  intro y p hy hset hitem
  rcases ItemQueue.mem_live_append hy with hold | heq
  · exact h.listed q y p hold hset hitem
  · rw [heq] at hset hitem
    exact absurd hitem (hnew hset p)

/-- An item is removed. -/
lemma remove (q : WaitQueue) (a : Nat) :
    (s.setQueue q ((s.queue q).remove a)).Sound := by
  apply h.setQueue
  intro y p hy hset hitem
  exact h.listed q y p (ItemQueue.mem_live_remove hy).1 hset hitem

/-- The fields of the item of a call are set. -/
lemma setFields (hcall : s.call t = .poll c) (q : WaitQueue) (a : Nat) :
    ((s.setQueue q ((s.queue q).setItem a (.poll c.table))).setTable c.table
      { s.table c.table with items := (s.table c.table).items ++ [(a, q)] }).Sound := by
  have htable := h.setItems c.table ((s.table c.table).items ++ [(a, q)])
    fun _ _ _ _ _ hmem => List.mem_append_left _ hmem
  have hself : (s.setTable c.table { s.table c.table with
      items := (s.table c.table).items ++ [(a, q)] }).table c.table =
        { s.table c.table with items := (s.table c.table).items ++ [(a, q)] } :=
    update_self c.table _ _
  refine htable.setQueue q ((s.queue q).setItem a (.poll c.table)) ?_
  intro y p hy hset hitem
  rcases ItemQueue.mem_live_setItem hy with hold | heq
  · exact htable.listed q y p hold hset hitem
  · rw [heq] at hitem ⊢
    cases hitem
    rw [hself]
    refine ⟨⟨c, ?_, rfl⟩, List.mem_append_right _ (List.mem_singleton_self _)⟩
    exact (congrArg s.call (h.calls t c hcall).tid).trans hcall

/-- `cleanup` removes an item. -/
lemma cleanupItem {p a : Nat} {q : WaitQueue} {rest : List (Nat × WaitQueue)}
    (hitems : (s.table p).items = (a, q) :: rest) :
    ((s.setQueue q ((s.queue q).remove a)).setTable p { s.table p with items := rest }).Sound := by
  refine (h.remove q a).setItems p rest ?_
  intro q' x hx hset hitem hmem
  change (x.addr, q') ∈ (s.table p).items at hmem
  rw [hitems] at hmem
  rcases List.mem_cons.mp hmem with heq | hrest
  · cases heq
    have hqueue : (s.setQueue q ((s.queue q).remove x.addr)).queue q =
        (s.queue q).remove x.addr := update_self q _ _
    rw [hqueue] at hx
    exact absurd rfl (ItemQueue.mem_live_remove hx).2
  · exact hrest

/-- A thread goes to sleep in `thread_io_wait`. -/
lemma sleep (hcall : s.call t = .ioWait) {msecs : Nat} (hquiet : ∀ x ∈ s.pollIds, x.1 ≠ t) :
    (s.schedulerWaitThread t msecs).Sound := by
  refine ⟨h.listed, ?_, fun t c hcall => (h.calls t c hcall).of_eq rfl le_rfl le_rfl rfl, h.bits,
    ?_, ⟨h.truthful.1, h.truthful.2⟩⟩
  · intro t' delay hstate
    by_cases heq : t' = t
    · rw [heq]
      unfold Rests
      simp only [schedulerWaitThread, hcall]
      exact hquiet
    · have hother : (s.schedulerWaitThread t msecs).state t' = s.state t' :=
        update_of_ne heq _ _
      rw [hother] at hstate
      exact h.rests t' delay hstate
  · intro t' c hc hpc hready
    have hne : t' ≠ t := by
      intro heq
      rw [heq, show (s.schedulerWaitThread t msecs).call t = s.call t from rfl, hcall] at hc
      cases hc
    have hother : (s.schedulerWaitThread t msecs).state t' = s.state t' := update_of_ne hne _ _
    rw [hother] at hready
    exact h.woken t' c hc hpc hready

/-- A right answer is given. -/
lemma answer {ufds : List PollFd} {timeout value : Int} {start : Nat}
    (htruth : PollAnswer.Truthful ⟨timeout, start, s.now, value, countReady s.uart ufds⟩) :
    (s.answer ufds timeout start value).Sound := by
  refine ⟨h.listed, h.rests, fun t c hcall => (h.calls t c hcall).of_eq rfl le_rfl le_rfl rfl,
    h.bits, h.woken, ⟨?_, h.truthful.wakeUps⟩⟩
  intro a ha
  rcases List.mem_append.mp ha with hold | hnew
  · exact h.truthful.answers a hold
  · rw [List.mem_singleton.mp hnew]
    exact htruth

omit h in
/-- A running thread does not wait. -/
lemma ne_of_waits (hready : s.state t = .ready) {t' : Nat} {delay : Option Nat}
    (hstate : s.state t' = .waiting delay) : t' ≠ t := by
  intro heq
  rw [heq, hready] at hstate
  cases hstate

/-- A thread that does not wait and whose call, if any, has no items left does something else. -/
lemma leave (hready : s.state t = .ready)
    (hitems : ∀ c, s.call t = .poll c → (s.table c.table).items = []) (call : UserCall)
    (hnew : ∀ c, call ≠ .poll c) : (s.setCall t call).Sound := by
  have hother : ∀ t', t' ≠ t → (s.setCall t call).call t' = s.call t' :=
    fun t' hne => update_of_ne hne _ _
  have hne : ∀ t' c, (s.setCall t call).call t' = .poll c → t' ≠ t := by
    intro t' c hc heq
    have hself : (s.setCall t call).call t = call := update_self t _ _
    rw [heq, hself] at hc
    exact hnew c hc
  refine ⟨?_, ?_, ?_, h.bits, ?_, ⟨h.truthful.1, h.truthful.2⟩⟩
  · intro q x p hx hset hitem
    have hlisted := h.listed q x p hx hset hitem
    refine ⟨?_, hlisted.2⟩
    obtain ⟨c, hc, hp⟩ := hlisted.1
    refine ⟨c, (hother _ fun heq => ?_).trans hc, hp⟩
    have hempty := hitems c (heq ▸ hc)
    rw [hp] at hempty
    have hmem := hlisted.2
    rw [hempty] at hmem
    cases hmem
  · intro t' delay hstate
    have hrests := h.rests t' delay hstate
    unfold Rests at hrests ⊢
    rw [hother t' (ne_of_waits hready hstate)]
    exact hrests
  · intro t' c hc
    have hold := hne t' c hc
    rw [hother t' hold] at hc
    exact (h.calls t' c hc).of_eq rfl le_rfl le_rfl rfl
  · intro t' c hc
    have hold := hne t' c hc
    rw [hother t' hold] at hc
    exact h.woken t' c hc

/-- `poll` is called. -/
theorem poll (hready : s.state t = .ready) (hidle : s.call t = .none)
    (ufds : List PollFd) (timeout : Int) (free : Bool) : (s.poll t ufds timeout free).Sound := by
  have herror : ∀ value : Int, value ≠ ETIMEDOUT → value ≤ 0 →
      (s.answer ufds timeout s.now value).Sound :=
    fun value hne hle => h.answer (PollAnswer.truthful_of_error hne hle)
  unfold PollSystem.poll
  split
  · exact herror EINVAL (by decide) (by decide)
  split
  · exact herror ENOMEM (by decide) (by decide)
  have hself : ∀ call, update s.call t call t = call := fun _ => update_self t _ _
  have hother : ∀ call t', t' ≠ t → update s.call t call t' = s.call t' :=
    fun _ _ hne => update_of_ne hne _ _
  have htable : ∀ pt p, p < s.tables → update s.table s.tables pt p = s.table p :=
    fun _ p hlt => update_of_ne (Nat.ne_of_lt hlt) _ _
  refine ⟨?_, ?_, ?_, ?_, ?_, ⟨h.truthful.1, h.truthful.2⟩⟩
  · intro q x p hx hset hitem
    have hlisted := h.listed q x p hx hset hitem
    obtain ⟨c, hc, hp⟩ := hlisted.1
    have hlt : p < s.tables := hp ▸ (h.calls _ c hc).table
    have hne : (s.table p).tid ≠ t := by
      intro heq
      rw [heq, hidle] at hc
      cases hc
    dsimp only [PollSystem.setTable, setCall]
    rw [htable _ p hlt]
    exact ⟨⟨c, (hother _ _ hne).trans hc, hp⟩, hlisted.2⟩
  · intro t' delay hstate
    have hrests := h.rests t' delay hstate
    unfold Rests at hrests ⊢
    dsimp only [PollSystem.setTable, setCall]
    rw [hother _ t' (ne_of_waits hready hstate)]
    exact hrests
  · intro t' c hc
    dsimp only [PollSystem.setTable, setCall] at hc
    by_cases heq : t' = t
    · rw [heq, hself] at hc
      cases hc
      rw [heq]
      have hnew : update s.table s.tables ⟨[], false, t⟩ s.tables = ⟨[], false, t⟩ :=
        update_self s.tables _ _
      refine ⟨congrArg Table.tid hnew, Nat.lt_succ_self _, le_rfl, nofun, ?_, fun _ _ => nofun,
        rfl⟩
      dsimp only [PollSystem.setTable, setCall]
      rw [hnew]
      exact nofun
    · rw [hother _ t' heq] at hc
      have hold := h.calls t' c hc
      exact hold.of_eq (htable _ c.table hold.table) (Nat.le_succ _) le_rfl rfl
  · intro x hx
    have hold := h.bits x hx
    refine ⟨Nat.lt_succ_of_lt hold.1, ?_⟩
    dsimp only [PollSystem.setTable, setCall]
    rw [htable _ x.2 hold.1]
    exact hold.2
  · intro t' c hc hpc hstate
    dsimp only [PollSystem.setTable, setCall] at hc ⊢
    by_cases heq : t' = t
    · rw [heq, hself] at hc
      cases hc
      cases hpc
    · rw [hother _ t' heq] at hc
      rw [htable _ c.table (h.calls t' c hc).table]
      exact h.woken t' c hc hpc hstate

/-- `thread_io_wait` is called. -/
lemma threadIoWait (hready : s.state t = .ready) (hidle : s.call t = .none)
    (hquiet : t ≠ THREAD_TID_IDLE → s.pollBit t = false) (q : WaitQueue) (msecs a : Nat) :
    (s.threadIoWait t q msecs a).Sound := by
  have hadded := h.append q (x := ⟨a, .owner t, true⟩) fun _ _ => nofun
  unfold PollSystem.threadIoWait
  split
  · exact hadded.remove q a
  · next hother =>
      have hleft := hadded.leave (t := t) hready
        (fun c hc => by rw [show s.call t = _ from hc] at hidle; cases hidle) .ioWait
        (fun _ => nofun)
      refine hleft.sleep (update_self t _ _) fun x hx heq => ?_
      have hbit := hquiet hother
      rw [PollSystem.pollBit, List.any_eq_false] at hbit
      exact hbit x hx (decide_eq_true heq)

/-- Threads become ready. -/
lemma wake (state : Nat → ThreadState)
    (hstate : ∀ t delay, state t = .waiting delay → s.state t = .waiting delay)
    (hwoken : ∀ t c, s.call t = .poll c → c.pc = .asleep → state t = .ready →
      s.state t = .ready ∨ (s.table c.table).signalled = true) :
    Sound { s with state := state } := by
  refine ⟨h.listed, fun t delay hwaits => h.rests t delay (hstate t delay hwaits),
    fun t c hcall => (h.calls t c hcall).of_eq rfl le_rfl le_rfl rfl, h.bits, ?_,
    ⟨h.truthful.1, h.truthful.2⟩⟩
  intro t c hcall hpc hready
  rcases hwoken t c hcall hpc hready with hold | hsignalled
  · exact h.woken t c hcall hpc hold
  · exact .inr hsignalled

lemma resumeOnIoWait
    (hcalm : ∀ t c, s.ioIds t = true → s.call t = .poll c → s.state t = .ready) :
    s.resumeOnIoWait.Sound := by
  have hwake := h.wake (fun t => if s.ioIds t then .ready else s.state t) (by
      intro t delay hwaits
      split at hwaits
      · cases hwaits
      · exact hwaits) (by
      intro t c hcall _ hready
      split at hready
      · next hbit => exact .inl (hcalm t c hbit hcall)
      · exact .inl hready)
  exact ⟨hwake.listed, hwake.rests,
    fun t c hcall => (hwake.calls t c hcall).of_eq rfl le_rfl le_rfl rfl, h.bits, hwake.woken,
    ⟨h.truthful.1, h.truthful.2⟩⟩

/-- A bit of `poll.c` ends the wait it was set for. -/
lemma endedWait {x : Nat × Nat} (hx : x ∈ s.pollIds) {y : Nat × Option Nat}
    (hy : s.endedWait x = some y) : y.2 = some y.1 := by
  unfold PollSystem.endedWait at hy
  split at hy
  · cases hy
  next hstate =>
    cases hy
    cases hwaits : s.state x.1 with
    | ready => exact absurd hwaits hstate
    | waiting delay =>
      have hrests := h.rests x.1 delay hwaits
      unfold Rests at hrests
      cases hcall : s.call x.1 with
      | none =>
        rw [hcall] at hrests
        exact hrests.elim
      | ioWait =>
        rw [hcall] at hrests
        exact absurd rfl (hrests x hx)
      | poll c =>
        rw [hcall] at hrests
        exact congrArg some (hrests.2.1 x hx rfl).symm

lemma resumeOnPoll : s.resumeOnPoll.Sound := by
  have hwake := h.wake (fun t => if s.pollBit t then .ready else s.state t) (by
      intro t delay hwaits
      split at hwaits
      · cases hwaits
      · exact hwaits) (by
      intro t c hcall _ hready
      split at hready
      · next hbit =>
          cases hstate : s.state t with
          | ready => exact .inl rfl
          | waiting delay =>
            -- the bit is that of the call
            obtain ⟨x, hx, heq⟩ := List.any_eq_true.mp hbit
            have hrests := h.rests t delay hstate
            simp only [Rests, hcall] at hrests
            rw [← hrests.2.1 x hx (of_decide_eq_true heq)]
            exact .inr (h.bits x hx).2
      · exact .inl hready)
  refine ⟨hwake.listed, ?_, fun t c hcall => (hwake.calls t c hcall).of_eq rfl le_rfl le_rfl rfl,
    nofun, hwake.woken, ⟨h.truthful.answers, ?_⟩⟩
  · intro t delay hwaits
    have hrests := hwake.rests t delay hwaits
    unfold Rests at hrests ⊢
    cases hcall : s.call t with
    | none =>
      simp only [hcall] at hrests
    | ioWait =>
      simp only [PollSystem.resumeOnPoll, hcall]
      exact nofun
    | poll c =>
      simp only [hcall] at hrests
      simp only [PollSystem.resumeOnPoll, hcall]
      exact ⟨hrests.1, nofun, hrests.2.2⟩
  · intro y hy
    rcases List.mem_append.mp hy with hold | hnew
    · exact h.truthful.wakeUps y hold
    · obtain ⟨x, hx, heq⟩ := List.mem_filterMap.mp hnew
      exact h.endedWait hx heq

/-- The time of a waiting thread has come. -/
lemma expire (hexpire : s.expire t = some s') : s'.Sound := by
  unfold PollSystem.expire at hexpire
  split at hexpire
  · next delay hstate =>
      split at hexpire
      · next hcome =>
          cases hexpire
          have hrests := h.rests t _ hstate
          unfold Rests at hrests
          cases hcall : s.call t with
          | none =>
            rw [hcall] at hrests
            exact hrests.elim
          | ioWait =>
            have hsame : update s.call t .ioWait = s.call := by
              rw [← hcall, update_eq_self]
            simp only [PollSystem.setCall, hsame]
            refine h.wake (update s.state t .ready) ?_ ?_
            · intro t' delay' hwaits
              by_cases heq : t' = t
              · rw [heq, update_self] at hwaits
                cases hwaits
              · rwa [update_of_ne heq] at hwaits
            · intro t' c hc _ hready
              have hne : t' ≠ t := by
                intro heq
                rw [heq, hcall] at hc
                cases hc
              rw [update_of_ne hne] at hready
              exact .inl hready
          | poll c =>
            rw [hcall] at hrests
            have hasleep : c.pc = .asleep := hrests.1
            have hdue := hrests.2.2 delay rfl
            have hkept := (h.calls t c hcall).kept
            refine h.change hcall { c with expired := true } .ready ⟨rfl, rfl, rfl, rfl⟩
              (fun _ => .inr ⟨hdue.1, hdue.2.trans (Int.ofNat_le.mpr hcome)⟩) ?_ (fun _ => nofun)
              fun _ _ => .inl rfl
            have hexact := hkept.exact
            have hwanted := hkept.wanted
            refine ⟨?_, fun i ret hpc => ?_, ?_⟩
            · simp only [PollCall.Noticed, hasleep] at hwanted ⊢
              exact hwanted
            · rw [show c.pc = _ from hpc] at hasleep
              cases hasleep
            · simp only [PollCall.Exact, hasleep] at hexact ⊢
              exact hexact
      · cases hexpire
  · cases hexpire

lemma tick (msecs : Nat) : Sound { s with now := s.now + msecs } :=
  ⟨h.listed, h.rests,
    fun t c hcall => (h.calls t c hcall).of_eq rfl le_rfl (Nat.le_add_right _ _) rfl, h.bits,
    h.woken, ⟨h.truthful.1, h.truthful.2⟩⟩

/-- The rings change and what the calls know of them stays right. -/
lemma setUart (hkept : ∀ t c, s.call t = .poll c → c.Kept (s.table c.table).signalled s.uart →
      c.Kept (s.table c.table).signalled u) : Sound { s with uart := u } := by
  refine ⟨h.listed, h.rests, ?_, h.bits, h.woken, ⟨h.truthful.1, h.truthful.2⟩⟩
  intro t c hcall
  have hold := h.calls t c hcall
  exact ⟨hold.tid, hold.table, hold.start, hold.expired, hkept t c hcall hold.kept⟩

/-- The rings change and no call is disturbed. -/
lemma rings (hcalm : s.Undisturbed u) : Sound { s with uart := u } :=
  h.setUart fun t c hcall hkept => hkept.steady (hcalm t c hcall)

/-- A wake-up is noted for a call in progress, which may count on an event then. -/
lemma pollWakeup {p : Nat} (hactive : s.Active (s.table p).tid p)
    (hwanted : ∀ t c, s.call t = .poll c → c.table = p → c.Noticed true → c.Wanted s.uart) :
    (s.pollWakeup p).Sound := by
  unfold PollSystem.pollWakeup
  simp only
  split
  · exact h
  obtain ⟨c₀, hc₀, hp⟩ := hactive
  have htable := h.setTable p { s.table p with signalled := true } rfl
    (fun _ _ _ _ _ hmem => hmem) (fun _ => rfl) fun t c hcall heq =>
      ⟨hwanted t c hcall heq, (h.calls t c hcall).kept.unit, (h.calls t c hcall).kept.exact⟩
  refine ⟨htable.listed, ?_, fun t c hcall => (htable.calls t c hcall).of_eq rfl le_rfl le_rfl rfl,
    ?_, htable.woken, ⟨h.truthful.1, h.truthful.2⟩⟩
  · intro t delay hwaits
    have hrests := h.rests t delay hwaits
    unfold Rests at hrests ⊢
    cases hcall : s.call t with
    | none =>
      rw [hcall] at hrests
      exact hrests.elim
    | ioWait =>
      rw [hcall] at hrests
      intro x hx heq
      rcases List.mem_append.mp hx with hold | hnew
      · exact hrests x hold heq
      · rw [List.mem_singleton.mp hnew] at heq
        rw [show (s.table p).tid = t from heq, hcall] at hc₀
        cases hc₀
    | poll c =>
      rw [hcall] at hrests
      refine ⟨hrests.1, ?_, hrests.2.2⟩
      intro x hx heq
      rcases List.mem_append.mp hx with hold | hnew
      · exact hrests.2.1 x hold heq
      · rw [List.mem_singleton.mp hnew] at heq ⊢
        rw [show (s.table p).tid = t from heq, hcall] at hc₀
        cases hc₀
        exact hp.symm
  · intro x hx
    rcases List.mem_append.mp hx with hold | hnew
    · exact htable.bits x hold
    · rw [List.mem_singleton.mp hnew, ← hp]
      refine ⟨(h.calls _ c₀ hc₀).table, ?_⟩
      dsimp only
      rw [update_self]

omit h in
/-- A note of a wake-up changes neither the wait queues nor the calls nor the rings. -/
lemma noteItem_same (s : PollSystem) (i : WaitItem) : (s.noteItem i).queue = s.queue ∧
    (s.noteItem i).call = s.call ∧ (s.noteItem i).uart = s.uart := by
  cases i with
  | owner t => exact ⟨rfl, rfl, rfl⟩
  | poll p =>
    simp only [noteItem, PollSystem.pollWakeup]
    split <;> exact ⟨rfl, rfl, rfl⟩

/-- The loop of `thread_io_resume`. -/
lemma noteItems {q : WaitQueue} {l : List QueueItem}
    (hlive : ∀ x ∈ l, x ∈ (s.queue q).live ∧ x.set = true)
    (hwanted : ∀ x ∈ l, ∀ t c, s.call t = .poll c → x.item = .poll c.table → c.Noticed true →
      c.Wanted s.uart) :
    (noteItems l s).Sound ∧ (noteItems l s).queue = s.queue := by
  induction l generalizing s with
  | nil => exact ⟨h, rfl⟩
  | cons x l ih =>
    have hx := hlive x (.head _)
    obtain ⟨hqueue, hcall, huart⟩ := noteItem_same s x.item
    have hnoted : (s.noteItem x.item).Sound := by
      cases hitem : x.item with
      | owner t =>
        exact ⟨h.listed, h.rests,
          fun t c hcall => (h.calls t c hcall).of_eq rfl le_rfl le_rfl rfl, h.bits, h.woken,
          ⟨h.truthful.1, h.truthful.2⟩⟩
      | poll p =>
        refine h.pollWakeup (h.listed q x p hx.1 hx.2 hitem).1 fun t c hcall hp => ?_
        exact hwanted x (.head _) t c hcall (by rw [hitem, hp])
    have hrest := ih hnoted
      (fun y hy => by rw [hqueue]; exact hlive y (.tail _ hy))
      (fun y hy => by rw [hcall, huart]; exact hwanted y (.tail _ hy))
    exact ⟨hrest.1, hrest.2.trans hqueue⟩

/-- `thread_io_resume` -/
lemma threadIoResume {q : WaitQueue} (hwelcome : s.Welcome q s.uart)
    (hresume : s.threadIoResume q = some s') : s'.Sound := by
  unfold PollSystem.threadIoResume at hresume
  simp only at hresume
  split at hresume
  · cases hresume
  cases hresume
  have hlive : ∀ x ∈ s.met q, x ∈ (s.queue q).live ∧ x.set = true := by
    intro x hx
    refine ⟨?_, hwelcome.set x hx⟩
    have hcounter : (s.queue q).counter ≠ 0 := by
      intro hzero
      rw [met, hzero, List.take_zero] at hx
      cases hx
    rw [ItemQueue.live_eq hcounter]
    exact List.mem_of_mem_take hx
  have hnoted := h.noteItems hlive hwelcome.wanted
  have hemptied := hnoted.1.setQueue q ⟨0, (s.queue q).items.drop (s.queue q).counter⟩
    fun _ _ hx => by cases hx
  unfold PollSystem.setQueue at hemptied
  rw [hnoted.2] at hemptied
  exact hemptied

/-- What `poll` returns is right. -/
lemma finish (hready : s.state t = .ready) (hcall : s.call t = .poll c)
    {value : Option Int} (hpc : c.pc = .cleanup value) (hitems : (s.table c.table).items = []) :
    ((s.answer c.ufds c.timeout c.start (value.getD (pollValue c.retvalue))).setCall t
      .none).Sound := by
  have hcalls := h.calls t c hcall
  have hexact := hcalls.kept.exact
  have htruth : PollAnswer.Truthful ⟨c.timeout, c.start, s.now,
      value.getD (pollValue c.retvalue), countReady s.uart c.ufds⟩ := by
    cases value with
    | some value =>
      simp only [PollCall.Exact, hpc] at hexact
      rw [Option.getD_some, hexact]
      exact PollAnswer.truthful_of_error (show EPERM ≠ ETIMEDOUT by decide)
        (show EPERM ≤ 0 by decide)
    | none =>
      simp only [PollCall.Exact, hpc] at hexact
      rw [Option.getD_none, pollValue]
      by_cases hret : c.retvalue ≠ 0
      · rw [if_pos hret]
        have hne : (c.retvalue : Int) ≠ ETIMEDOUT := by
          rw [ETIMEDOUT]
          omega
        exact ⟨fun _ => hne, fun _ heq => absurd heq hne, fun _ => congrArg _ hexact.1⟩
      · rw [if_neg hret]
        have hover : c.timeout = 0 ∨ c.expired = true := by
          rcases hexact.2 with hzero | hover | hne
          · exact .inl hzero
          · exact .inr hover
          · exact absurd hne hret
        refine ⟨?_, ?_, fun hpos => absurd hpos (show ¬0 < ETIMEDOUT by decide)⟩
        · intro (hneg : c.timeout < 0) _
          rcases hover with hzero | hexpired
          · omega
          · have hdue := hcalls.expired hexpired
            omega
        · intro (hpos : 0 < c.timeout) _
          rcases hover with hzero | hexpired
          · omega
          · exact (hcalls.expired hexpired).2
  refine (h.answer htruth).leave (t := t) hready ?_ .none fun _ => nofun
  intro c' hc'
  have heq : c' = c := by
    rw [show s.call t = _ from hc'] at hcall
    cases hcall
    rfl
  rw [heq]
  exact hitems

/-- Each statement of a call keeps the account. -/
lemma pollStep (hready : s.state t = .ready) (hcall : s.call t = .poll c)
    {offer : Option (Nat × WaitItem)} (hcalm : c.Calm s t offer)
    (hstep : s.pollStep t offer c = some s') : s'.Sound := by
  have hkept := (h.calls t c hcall).kept
  have hwanted := hkept.wanted
  have hexact := hkept.exact
  unfold PollSystem.pollStep at hstep
  cases hpc : c.pc with
  | first i =>
    simp only [hpc] at hstep
    split at hstep
    · cases hstep
      refine h.goOn hready hcall _ ⟨rfl, rfl, rfl, rfl⟩ rfl nofun ?_
      refine hkept.goOn (fun hnoticed => ?_) (fun _ _ => nofun) ?_
      · rw [PollCall.Noticed, hpc]
        exact hnoticed
      · simpa only [PollCall.Exact, hpc] using hexact
    · next fd hfd =>
        cases hstep
        refine h.goOn hready hcall _ ⟨rfl, rfl, rfl, rfl⟩ rfl ?_ (hkept.first hpc hfd)
        dsimp only
        split <;> nofun
  | firstTx i ret =>
    simp only [hpc] at hstep
    cases hstep
    exact h.goOn hready hcall _ ⟨rfl, rfl, rfl, rfl⟩ rfl nofun (hkept.firstTx hpc)
  | register q i ret =>
    have hawake : afterRegister q i ret ≠ .asleep := by
      unfold afterRegister
      split <;> nofun
    simp only [hpc] at hstep
    split at hstep
    · cases hstep
      exact h.goOn hready hcall _ ⟨rfl, rfl, rfl, rfl⟩ rfl hawake (hkept.register (.inl hpc))
    · next a former =>
      split at hstep
      · cases hstep
      · cases hstep
        refine (h.append q (x := ⟨a, former, false⟩) nofun).goOn (c := c) hready hcall _
          ⟨rfl, rfl, rfl, rfl⟩ rfl nofun ?_
        refine hkept.goOn (fun hnoticed => ?_) (fun _ _ => nofun) ?_
        · rw [PollCall.Noticed, hpc]
          exact hnoticed
        · simpa only [PollCall.Exact, hpc] using hexact
  | setFields q i ret a =>
    have hawake : afterRegister q i ret ≠ .asleep := by
      unfold afterRegister
      split <;> nofun
    simp only [hpc] at hstep
    split at hstep
    · cases hstep
    · cases hstep
      have hset := h.setFields hcall q a
      refine hset.goOn (c := c) hready hcall _ ⟨rfl, rfl, rfl, rfl⟩ rfl hawake ?_
      exact (hset.calls t c hcall).kept.register (.inr ⟨a, hpc⟩)
  | firstStore i ret =>
    simp only [hpc] at hstep
    cases hstep
    simp only [PollCall.Noticed, PollCall.Exact, hpc] at hwanted hexact
    have hmore : ∀ {P : Prop} [Decidable P], ((s.table c.table).signalled || decide P) = true →
        (s.table c.table).signalled = true ∨ P := by
      intro P _ hor
      simpa using hor
    have htable := h.setTable c.table { s.table c.table with
      signalled := (s.table c.table).signalled ||
        decide (ret &&& ((c.ufds[i]?).elim 0 PollFd.revents) ≠ 0) } rfl
      (fun _ _ _ _ _ hmem => hmem) (fun hold => by simp [hold]) (by
        intro t' c' hc' hp
        have hown : t' = t := by
          rw [← (h.calls t' c' hc').tid, hp]
          exact (h.calls t c hcall).tid
        rw [hown, hcall] at hc'
        cases hc'
        refine ⟨?_, hkept.unit, hkept.exact⟩
        simp only [PollCall.Noticed, hpc]
        exact fun hnoticed => hwanted (hnoticed.elim hmore .inr))
    refine htable.goOn (c := c) hready hcall _ ⟨rfl, rfl, rfl, rfl⟩ rfl nofun ?_
    have hself : update s.table c.table { s.table c.table with
        signalled := (s.table c.table).signalled ||
          decide (ret &&& ((c.ufds[i]?).elim 0 PollFd.revents) ≠ 0) } c.table = _ :=
      update_self c.table _ _
    refine ⟨?_, fun _ _ => nofun, hexact⟩
    dsimp only [PollSystem.setTable]
    rw [hself]
    exact fun hnoticed => hwanted (hmore hnoticed)
  | decide =>
    simp only [hpc] at hstep
    cases hstep
    simp only [PollCall.Noticed, PollCall.Exact, hpc] at hwanted hexact
    split
    · refine h.goOn hready hcall _ ⟨rfl, rfl, rfl, rfl⟩ rfl nofun ?_
      exact ⟨hwanted, fun _ _ => nofun, hexact⟩
    · next hgo =>
        refine h.goOn hready hcall _ ⟨rfl, rfl, rfl, rfl⟩ rfl nofun ⟨fun hnoticed => hwanted ?_,
          fun _ _ => nofun, hexact⟩
        by_contra hnot
        exact hgo ⟨Bool.eq_false_of_not_eq_true hnot, hnoticed.1⟩
  | wait =>
    simp only [hpc] at hstep
    split at hstep
    · cases hstep
      exact h.goOn hready hcall _ ⟨rfl, rfl, rfl, rfl⟩ rfl nofun
        ⟨False.elim, fun _ _ => nofun, rfl⟩
    · next hother =>
        cases hstep
        simp only [PollCall.Noticed, PollCall.Exact, hpc] at hwanted hexact
        have hstart := (h.calls t c hcall).start
        refine h.change hcall { c with pc := .asleep } (.waiting _) ⟨rfl, rfl, rfl, rfl⟩ .inl
          ⟨hwanted, fun _ _ => nofun, hexact⟩ ?_ nofun
        intro delay hdelay
        refine ⟨rfl, hcalm.2 hpc hother, fun d hd => ?_⟩
        rw [← ThreadState.waiting.inj hdelay] at hd
        by_cases hneg : c.timeout < 0
        · rw [if_pos hneg, if_neg (not_not.mpr rfl)] at hd
          cases hd
        · rw [if_neg hneg] at hd
          split at hd
          · next hne =>
              cases hd
              change 0 < c.timeout ∧ (c.start : Int) + c.timeout ≤ ((s.now + c.timeout.toNat : Nat))
              omega
          · cases hd
  | asleep =>
    have hwoken := h.woken t c hcall hpc hready
    simp only [hpc] at hstep
    cases hstep
    simp only [PollCall.Noticed, PollCall.Exact, hpc] at hwanted hexact
    refine h.goOn hready hcall _ ⟨rfl, rfl, rfl, rfl⟩ rfl nofun ⟨fun hnoticed => ?_,
      fun _ _ => nofun, hexact⟩
    rcases hwoken with hexpired | hsignalled
    · exact absurd hexpired (by rw [show c.expired = false from hnoticed.2.1]; nofun)
    · exact hwanted hsignalled
  | second i =>
    simp only [hpc] at hstep
    split at hstep
    · next hend =>
        cases hstep
        exact h.goOn hready hcall _ ⟨rfl, rfl, rfl, rfl⟩ rfl nofun (hkept.cleanup hpc hend)
    · next fd hfd =>
        cases hstep
        refine h.goOn hready hcall _ ⟨rfl, rfl, rfl, rfl⟩ rfl ?_ (hkept.second hpc hfd)
        dsimp only
        split <;> nofun
  | secondTx i ret =>
    simp only [hpc] at hstep
    cases hstep
    exact h.goOn hready hcall _ ⟨rfl, rfl, rfl, rfl⟩ rfl nofun (hkept.secondTx hpc)
  | secondStore i ret =>
    simp only [hpc] at hstep
    cases hstep
    exact h.goOn hready hcall _ ⟨rfl, rfl, rfl, rfl⟩ rfl nofun (hkept.secondStore hpc)
  | cleanup value =>
    simp only [hpc] at hstep
    split at hstep
    · next hitems =>
        cases hstep
        exact h.finish hready hcall hpc hitems
    · next a q rest hitems =>
        split at hstep
        · cases hstep
        · cases hstep
          exact h.cleanupItem hitems

/-- Each step keeps the account of the calls and wake-ups. -/
theorem exec {a : PollAction} (hcalm : s.Calm a) (hexec : s.exec a = some s') :
    s'.Sound := by
  cases a with
  | poll t ufds timeout free =>
    simp only [PollSystem.exec] at hexec
    split at hexec
    · next hready hidle =>
        cases hexec
        exact h.poll hready hidle ufds timeout free
    · cases hexec
  | statement t offer =>
    simp only [PollSystem.exec] at hexec
    split at hexec
    · next c hready hcall =>
        simp only [PollSystem.Calm, CalmStatement, hcall] at hcalm
        exact h.pollStep hready hcall hcalm hexec
    · cases hexec
  | ioWait t q msecs a =>
    simp only [PollSystem.exec] at hexec
    split at hexec
    · next hready hidle =>
        split at hexec
        · cases hexec
        · cases hexec
          exact h.threadIoWait hready hidle hcalm.2 q msecs a
    · cases hexec
  | ioReturn t =>
    simp only [PollSystem.exec] at hexec
    split at hexec
    · next hready hcall =>
        cases hexec
        refine h.leave hready (fun c hc => ?_) .none fun _ => nofun
        rw [hcall] at hc
        cases hc
    · cases hexec
  | resumeOnIoWait =>
    cases hexec
    exact h.resumeOnIoWait hcalm
  | resumeOnPoll =>
    cases hexec
    exact h.resumeOnPoll
  | expire t => exact h.expire hexec
  | tick msecs =>
    cases hexec
    exact h.tick msecs
  | threadIoResume q => exact h.threadIoResume hcalm hexec
  | receive b =>
    cases hexec
    -- a byte in the hardware is no event yet
    refine h.rings fun t c hcall => ?_
    have hrx : Uart.rxEvents { s.uart with
        rx := if s.uart.rx.fifo.length < FIFO_SIZE then
          { s.uart.rx with fifo := s.uart.rx.fifo ++ [b] } else s.uart.rx } = s.uart.rxEvents := by
      split <;> rfl
    have hsame : ∀ fd : PollFd, fd.Same s.uart { s.uart with
        rx := if s.uart.rx.fifo.length < FIFO_SIZE then
          { s.uart.rx with fifo := s.uart.rx.fifo ++ [b] } else s.uart.rx } :=
      fun fd => ⟨by rw [hrx], Iff.rfl⟩
    refine ⟨fun _ ⟨fd, hfd, hready⟩ => ⟨fd, hfd, ?_⟩, fun fd _ _ => hsame fd⟩
    rwa [ready_same fun _ => hsame fd]
  | txHoldEmpty | recvDataAvail | charTimeout =>
    simp only [PollSystem.exec] at hexec
    split at hexec
    · exact (h.rings hcalm.1).threadIoResume ⟨hcalm.2.set, hcalm.2.wanted⟩ hexec
    · cases hexec
  | rings u =>
    cases hexec
    exact h.rings hcalm

end Sound

end PollSystem

/-- `poll` tells the truth in every run of calm steps. -/
theorem poll_truth (hrun : PartialRuns PollSystem.exec PollSystem.Calm .start s) : s.Truthful := by
  have hsound : s.Sound :=
    hrun.invariant (P := PollSystem.Sound) (fun _ _ _ h hcalm hexec => h.exec hcalm hexec)
      PollSystem.Sound.start
  exact hsound.truthful

/-! ## Two runs -/

instance decidablePollCalm (s : PollSystem) (t : Nat) (offer : Option (Nat × WaitItem))
    (c : PollCall) : Decidable (c.Calm s t offer) :=
  inferInstanceAs (Decidable (_ ∧ (_ → _ → _)))

/-- Calls of one thread, one after the other. -/
def PollSystem.CalmCall (s : PollSystem) : PollAction → Prop
  | .poll _ _ _ _ => True
  | .statement t offer => s.CalmStatement t offer
  | _ => False

instance decidableCalmStatement (s : PollSystem) (t : Nat) (offer : Option (Nat × WaitItem)) :
    Decidable (s.CalmStatement t offer) :=
  match h : s.call t with
  | .poll c => decidable_of_iff (c.Calm s t offer) (by simp only [PollSystem.CalmStatement, h])
  | .none | .ioWait => isTrue (by simp only [PollSystem.CalmStatement, h])

instance decidableCalmCall (s : PollSystem) (a : PollAction) : Decidable (s.CalmCall a) := by
  cases a with
  | poll t ufds timeout free => exact isTrue trivial
  | statement t offer => exact inferInstanceAs (Decidable (s.CalmStatement t offer))
  | _ => exact isFalse id

lemma PollSystem.CalmCall.calm {a : PollAction} (h : s.CalmCall a) : s.Calm a := by
  cases a with
  | poll t ufds timeout free => trivial
  | statement t offer => exact h
  | _ => exact h.elim

/-- The statements of a call on one entry that does not wait. -/
def shortCall (t : Nat) (fd : PollFd) (timeout : Int) : List PollAction :=
  [.poll t [fd] timeout true, .statement t none, .statement t none,
    .statement t (some (0, .owner 0)), .statement t none, .statement t (some (1, .owner 0))] ++
    List.replicate 11 (.statement t none)

/-- A byte has come before the call. -/
theorem poll_truth_ready : ∃ s : PollSystem, s.answers = [⟨-1, 0, 0, 1, 1⟩] ∧ s.Truthful := by
  have hbyte : ∃ s ∈ (PollSystem.start.exec (.receive 7)).bind fun s => s.exec .charTimeout,
      ∃ s' ∈ checkedRun PollSystem.exec PollSystem.CalmCall (shortCall 1 ⟨some 0, 1⟩ (-1)) s,
        s'.answers = [⟨-1, 0, 0, 1, 1⟩] := by decide
  obtain ⟨s₂, hs₂, s, hs, hanswers⟩ := hbyte
  obtain ⟨s₁, hs₁, htimeout⟩ := Option.bind_eq_some_iff.mp hs₂
  have hcalm : s₁.Calm .charTimeout := by
    cases hs₁
    exact ⟨fun _ _ => nofun, nofun, nofun⟩
  have hfirst : PartialRuns PollSystem.exec PollSystem.Calm .start s₂ :=
    ((PartialRuns.refl _).tail (i := .receive 7) trivial hs₁).tail hcalm htimeout
  have hcall := (PartialRuns.of_checkedRun _ (PartialRuns.refl _) hs).mono
    fun _ _ h => PollSystem.CalmCall.calm h
  exact ⟨s, hanswers, poll_truth (PartialRuns.trans hfirst hcall)⟩

/-- A byte comes for a thread that waits for the transmitter. -/
theorem poll_truth_broken :
    ¬∀ s : PollSystem, PartialRuns PollSystem.exec (fun _ _ => True) .start s → s.Truthful := by
  intro hclaim
  have hcheck : ∃ s ∈ checkedRun PollSystem.exec (fun _ _ => True)
      ((shortCall 1 ⟨some 0, 0x40⟩ (-1)).take 11 ++
        [.receive 7, .charTimeout, .resumeOnPoll] ++ List.replicate 8 (.statement 1 none)) .start,
      ⟨-1, 0, 0, ETIMEDOUT, 0⟩ ∈ s.answers := by decide
  obtain ⟨s, hs, hanswer⟩ := hcheck
  have hrun := PartialRuns.of_checkedRun _ (PartialRuns.refl _) hs
  exact ((hclaim s hrun).answers _ hanswer).negative (by decide) rfl

end DiegOS.Drivers
