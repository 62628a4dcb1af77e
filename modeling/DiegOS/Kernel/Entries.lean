import DiegOS.Kernel.Placement
import Mathlib.Data.Finset.Card
import Mathlib.Data.Finset.Range

/-!
# The entry points of the scheduler

What the entry points of the scheduler, and the creation and removal of threads, do to
the places of the threads.

Main results:

- Theorems `Placed.suspendThread`, `Placed.waitThread` and
  `Placed.delayThread`: the running thread goes into one queue.
- Lemma `Placed.addThread`: a new thread goes into its ready queue.
-/

namespace DiegOS.Kernel

open Lib

namespace Placed

variable {strict : Prop} {N : Nat} {s s' : Sched N} {out : List Nat} {L : Place → List Nat}
  {q : Place} {d r : Nat} {l : List Nat}

theorem suspendThread (h : Placed strict s (r :: out) L) (hrun : s.running = some r) :
    ∃ queues L', s.suspendThread = some
        ((s.setThread r { s.storage r with state := .ready }).setQueues queues) ∧
      Placed strict ((s.setThread r { s.storage r with state := .ready }).setQueues queues)
        out L' := by
  have hlive := (h.outside r (by simp)).1
  have hidle : r = 0 → Place.ready (s.storage r).priority = .ready THREAD_PRIO_IDLE ∧
      (s.storage r).terminate = false := by
    rintro rfl
    exact ⟨by rw [h.lowest], h.lasts⟩
  obtain ⟨queues, henq, hplaced⟩ := h.put (q := .ready (s.storage r).priority)
    (u := { s.storage r with state := .ready }) ⟨rfl, rfl⟩ hlive.tid_eq rfl hidle
    (by simp) (by simp)
  refine ⟨queues, _, ?_, hplaced⟩
  rw [Sched.suspendThread, hrun]
  dsimp only
  rw [henq]
  rfl

/-- The record of a thread that begins to wait. -/
def waitingRecord (s : Sched N) (r : Nat) (flags : WaitFlags) (msecs : Nat) : Thread :=
  { s.storage r with
    wait := { flags.events with timeout := decide (msecs ≠ 0) }
    state := .waiting
    delay := if msecs ≠ 0 then s.now + msecs else 0 }

theorem waitThread (h : Placed strict s (r :: out) L) (hrun : s.running = some r) (hr : r ≠ 0)
    {flags : WaitFlags} (hflags : flags.events ≠ .none) (msecs : Nat) :
    ∃ queues L', s.waitThread flags msecs = some
        ((s.setThread r (waitingRecord s r flags msecs)).setQueues queues, true) ∧
      Placed strict ((s.setThread r (waitingRecord s r flags msecs)).setQueues queues)
        out L' := by
  have hlive := (h.outside r (by simp)).1
  obtain ⟨queues, henq, hplaced⟩ := h.put (q := .wait)
    (u := waitingRecord s r flags msecs) (.inl rfl) hlive.tid_eq rfl
    (fun h0 => absurd h0 hr) (fun _ _ _ => .inr hflags) (by simp)
  refine ⟨queues, _, ?_, hplaced⟩
  rw [Sched.waitThread, hrun]
  dsimp only
  rw [if_neg (by rw [hlive.tid_eq]; exact hr), if_neg hflags, henq]
  rfl

/-- The queues hold no more threads than there are slots. -/
lemma length_le (h : Placed strict s out L) (q : Place) : (L q).length ≤ N := by
  have hsub : (L q).toFinset ⊆ Finset.range N := by
    intro t ht
    exact Finset.mem_range.mpr (h.member q t (List.mem_toFinset.mp ht)).1.lt
  calc (L q).length = (L q).toFinset.card := (List.toFinset_card_of_nodup (h.holds.nodup q)).symm
    _ ≤ (Finset.range N).card := Finset.card_le_card hsub
    _ = N := Finset.card_range N

/-- A thread wakes up no later than the time. -/
def wakesBy (s : Sched N) (time t : Nat) : Bool := decide ((s.storage t).delay ≤ time)

/-- The walk along the delay queue goes on as long as the next thread wakes up no later. -/
lemma delayAfter (h : Placed strict s out L) (time : Nat) (m : List Nat) :
    ∀ {n a : Nat} {l : List Nat}, L .delay = l ++ a :: m → m.length < n →
      ∃ b l', s.delayAfter time n a = some b ∧
        l' ++ [b] = l ++ a :: m.takeWhile (wakesBy s time) ∧
        L .delay = l' ++ b :: m.dropWhile (wakesBy s time) := by
  induction m with
  | nil =>
    intro n a l hsplit hn
    obtain ⟨n, rfl⟩ := Nat.exists_eq_succ_of_ne_zero (Nat.ne_of_gt hn)
    have hnext : s.queues.next a = none := by
      have hlinked := (h.holds.describes .delay).linked
      rw [hsplit] at hlinked
      exact hlinked.suffix.1
    exact ⟨a, l, by rw [Sched.delayAfter, hnext], rfl, hsplit⟩
  | cons c m ih =>
    intro n a l hsplit hn
    obtain ⟨n, rfl⟩ := Nat.exists_eq_succ_of_ne_zero (Nat.ne_of_gt (Nat.zero_lt_of_lt hn))
    have hnext : s.queues.next a = some c := by
      have hlinked := (h.holds.describes .delay).linked
      rw [hsplit] at hlinked
      exact hlinked.suffix.1
    rw [Sched.delayAfter, hnext]
    dsimp only
    split
    · next hlate =>
        have hc : ¬wakesBy s time c = true := by simpa [wakesBy] using hlate
        refine ⟨a, l, rfl, ?_, ?_⟩
        · rw [List.takeWhile_cons_of_neg hc]
        · rw [List.dropWhile_cons_of_neg hc, hsplit]
    · next hlate =>
        have hc : wakesBy s time c = true := by simpa [wakesBy] using hlate
        obtain ⟨b, l', hafter, hfront, hback⟩ := ih (l := l ++ [a])
          (by rw [hsplit, List.append_assoc]; rfl) (by simpa using hn)
        refine ⟨b, l', hafter, ?_, ?_⟩
        · rw [List.takeWhile_cons_of_pos hc, hfront, List.append_assoc]
          rfl
        · rw [List.dropWhile_cons_of_pos hc]
          exact hback

/-- The record of a thread that begins to sleep. -/
def delayedRecord (s : Sched N) (r : Nat) (msecs : Nat) : Thread :=
  { s.storage r with wait := .TIMEOUT, state := .waiting, delay := msecs + s.now }

/-- The delay queue with a thread put behind those that wake up no later. -/
def delayedList (s : Sched N) (L : Place → List Nat) (r time : Nat) : List Nat :=
  (L .delay).takeWhile (wakesBy s time) ++ r :: (L .delay).dropWhile (wakesBy s time)

lemma mem_delayedList {time t : Nat} : t ∈ delayedList s L r time ↔ t = r ∨ t ∈ L .delay := by
  rw [delayedList, List.mem_append, List.mem_cons, or_left_comm, ← List.mem_append,
    List.takeWhile_append_dropWhile]

/-- The running thread goes behind those that wake up no later. -/
theorem delayThread (h : Placed strict s (r :: out) L) (hrun : s.running = some r) (hr : r ≠ 0)
    (hr1 : r ≠ 1) (msecs : Nat) :
    ∃ queues, s.delayThread msecs = some
        ((s.setThread r (delayedRecord s r msecs)).setQueues queues, true) ∧
      Placed strict ((s.setThread r (delayedRecord s r msecs)).setQueues queues) out
        (Function.update L .delay (delayedList s L r (msecs + s.now))) := by
  obtain ⟨hlive, hnot⟩ := h.outside r (by simp)
  have hplace : ∃ after queues, s.delayPlace (msecs + s.now) = some after ∧
      s.queues.insert .delay r after = some queues ∧
      queues.Holds (Function.update L .delay (delayedList s L r (msecs + s.now))) := by
    obtain ⟨front, hfront, hfrontHolds⟩ := h.holds.insert_front (i := .delay) hnot
    cases hcons : L .delay with
    | nil =>
      have hhead : s.queues.head .delay = none := by rw [h.holds.head, hcons]; rfl
      have hlist : delayedList s L r (msecs + s.now) = r :: L .delay := by
        simp [delayedList, hcons]
      rw [hlist]
      exact ⟨none, front, by simp [Sched.delayPlace, hhead], hfront, hfrontHolds⟩
    | cons a m =>
      have hhead : s.queues.head .delay = some a := by rw [h.holds.head, hcons]; rfl
      by_cases htime : msecs + s.now < (s.storage a).delay
      · have hlist : delayedList s L r (msecs + s.now) = r :: L .delay := by
          have ha : ¬wakesBy s (msecs + s.now) a = true := by simpa [wakesBy] using htime
          rw [delayedList, hcons, List.takeWhile_cons_of_neg ha, List.dropWhile_cons_of_neg ha]
          rfl
        rw [hlist]
        exact ⟨none, front, by simp [Sched.delayPlace, hhead, htime], hfront, hfrontHolds⟩
      · have hlen := h.length_le .delay
        rw [hcons, List.length_cons] at hlen
        have ha : wakesBy s (msecs + s.now) a = true := by simpa [wakesBy] using htime
        obtain ⟨b, l', hafter, hbefore, hsplit⟩ := h.delayAfter (msecs + s.now) m
          (l := []) hcons (Nat.lt_of_succ_le hlen)
        obtain ⟨queues, hins, hholds⟩ := h.holds.insert_after hnot hsplit
        have hlist : delayedList s L r (msecs + s.now) =
            l' ++ b :: r :: m.dropWhile (wakesBy s (msecs + s.now)) := by
          rw [delayedList, hcons, List.takeWhile_cons_of_pos ha, List.dropWhile_cons_of_pos ha,
            ← List.nil_append (a :: _), ← hbefore, List.append_assoc]
          rfl
        rw [hlist]
        exact ⟨some b, queues, by simp [Sched.delayPlace, hhead, htime, hafter], hins, hholds⟩
  obtain ⟨after, queues, hafter, hins, hholds⟩ := hplace
  refine ⟨queues, ?_, h.link (u := delayedRecord s r msecs) hholds (fun _ => mem_delayedList)
    ⟨rfl, rfl⟩ hlive.tid_eq rfl (fun h0 => absurd h0 hr) (by simp) (fun _ _ => rfl)⟩
  rw [Sched.delayThread, hrun]
  dsimp only
  rw [if_neg, hafter]
  · dsimp only
    rw [hins]
    rfl
  · rw [hlive.tid_eq]
    exact not_or.mpr ⟨hr, hr1⟩

end Placed

/-! ## Resumed threads -/

/-- The record of a resumed thread. -/
def Thread.resumed (t : Thread) : Thread := { t with wait := .none, state := .ready, delay := 0 }

/-- All that `scheduler_resume_thread` can do. -/
lemma Sched.resumeThread_cases {N : Nat} (s : Sched N) (flags : WaitFlags) (tid : Nat) :
    s.resumeThread flags tid = (s, false) ∨
      s.Live tid ∧ (s.storage tid).state = .waiting ∧ flags.inter (s.storage tid).wait ≠ .none ∧
        s.resumeThread flags tid = (s.setThread tid (s.storage tid).resumed, true) := by
  unfold Sched.resumeThread
  cases hget : s.getThread tid with
  | none => exact .inl rfl
  | some t =>
    obtain ⟨hlive, rfl⟩ := Sched.getThread_eq_some.mp hget
    dsimp only
    split
    · exact .inl rfl
    · next hstate =>
        split
        · exact .inl rfl
        · next hflags => exact .inr ⟨hlive, by simpa using hstate, hflags, rfl⟩

/-- Flags without that of the time-out do not resume a thread that waits for no event. -/
lemma WaitFlags.inter_none {f g : WaitFlags} (hf : f.timeout = false) (hg : g.events = .none) :
    f.inter g = .none := by
  cases f
  cases g
  simp_all [WaitFlags.events, WaitFlags.inter, WaitFlags.none]

namespace Placed

variable {strict : Prop} {N : Nat} {s s' : Sched N} {out : List Nat} {L : Place → List Nat}
  {q : Place} {d r : Nat} {l : List Nat}

/-! ## Threads that come and go -/

/-- A thread is marked for its end; its wait is over. -/
lemma mark (h : Placed strict s out L) {tid : Nat} (hlive : s.Live tid) (htid : tid ≠ 0)
    (hdelay : strict → tid ∉ L .delay) (wait : WaitFlags)
    (hwait : (s.storage tid).state = .waiting → wait = .none) :
    Placed strict (s.setThread tid { s.storage tid with wait := wait, terminate := true })
      out L := by
  refine h.change hlive hlive.tid_eq rfl (fun q hq => ?_) ?_ (fun h0 => absurd h0 htid)
    (fun _ _ _ => .inl rfl) (fun hstrict hin => absurd hin (hdelay hstrict))
  · have hfit := (h.member q tid hq).2
    cases q with
    | delay =>
      refine ⟨hfit.1, ?_⟩
      rw [hwait hfit.1]
      rfl
    | _ => exact hfit
  · intro _ hstate
    rw [hwait hstate]
    exact .inr rfl

/-- The running thread ends. -/
lemma exit (h : Placed strict s (r :: out) L) (hr : r ≠ 0) :
    ∃ queues L', s.queues.enqueue .dead r = some queues ∧
      Placed strict ((s.setThread r { s.storage r with state := .dead }).setQueues queues)
        out L' := by
  have hlive := (h.outside r (by simp)).1
  obtain ⟨queues, henq, hplaced⟩ := h.put (q := .dead)
    (u := { s.storage r with state := .dead }) rfl hlive.tid_eq rfl
    (fun h0 => absurd h0 hr) (by simp) (by simp)
  exact ⟨queues, _, henq, hplaced⟩

/-- A free slot gets a thread. -/
lemma born (h : Placed strict s out L) {t : Nat} {t' : Thread} (hlt : t < N)
    (hinv : t < THREAD_TID_INVALID) (hdead : ¬s.Live t) (htid : t'.tid = t)
    (hprio : t'.priority < THREAD_PRIORITIES) :
    Placed strict (s.setThread t t') (t :: out) L := by
  have hlive : ∀ i, (s.setThread t t').Live i ↔ s.Live i ∨ i = t := by
    intro i
    by_cases hi : i = t
    · subst hi
      simp [Sched.Live, htid, hlt, hinv]
    · simp [Sched.Live, hi]
  have hother : ∀ i, s.Live i → (s.setThread t t').storage i = s.storage i := by
    intro i hi
    have hne : i ≠ t := by
      rintro rfl
      exact hdead hi
    simp [hne]
  have hmem : ∀ q i, i ∈ L q → s.Live i := fun q i hi => (h.member q i hi).1
  refine ⟨h.holds, fun i hi hnot => ?_, fun q i hi => ?_, fun i hi => ?_, ?_,
    fun i hi hout hstate => ?_, fun i hi => ?_, ?_, ?_, ?_, fun hstrict i hi => ?_,
    fun hstrict i hi => ?_, fun hstrict i hi => ?_⟩
  · obtain ⟨hnot', hne⟩ := not_or.mp fun hor => hnot ((hlive i).mpr hor)
    have hsame : (s.setThread t t').storage i = s.storage i := by simp [hne]
    rw [hsame]
    exact h.slots i hi hnot'
  · rw [hlive, hother i (hmem q i hi)]
    exact ⟨.inl (hmem q i hi), (h.member q i hi).2⟩
  · rw [hlive]
    rcases List.mem_cons.mp hi with rfl | hi
    · exact ⟨.inr rfl, fun q hq => hdead (hmem q i hq)⟩
    · exact ⟨.inl (h.outside i hi).1, (h.outside i hi).2⟩
  · exact List.nodup_cons.mpr ⟨fun hin => hdead (h.outside t hin).1, h.nodup⟩
  · obtain ⟨hne, hout⟩ := not_or.mp fun hor => hout (List.mem_cons.mpr hor)
    have hl := ((hlive i).mp hi).resolve_right hne
    rw [hother i hl] at hstate ⊢
    exact h.waits i hl hout hstate
  · rcases (hlive i).mp hi with hl | rfl
    · rw [hother i hl]
      exact h.prio i hl
    · simpa using hprio
  · exact h.idle.imp_left fun hout => .tail _ hout
  · rw [hother 0 h.live_idle]
    exact h.lasts
  · rw [hother 0 h.live_idle]
    exact h.lowest
  · rcases (hlive i).mp hi with hl | rfl
    · exact (h.everyone hstrict i hl).imp_left fun hout => .tail _ hout
    · exact .inl (by simp)
  · rw [hother i (hmem _ i hi)]
    exact h.waiting hstrict i hi
  · rw [hother i (hmem _ i hi)]
    exact h.delayed hstrict i hi

end Placed

/-- A slot that is found is free. -/
lemma Sched.findSlot_free {storage : Nat → Thread} {name : List UInt8} (l : List Nat) :
    ∀ {newTid k : Nat}, Sched.findSlot storage name l newTid = some k → k = newTid ∨
      k ∈ l ∧ (storage k).tid = THREAD_TID_INVALID := by
  induction l with
  | nil =>
    intro newTid k h
    exact .inl (Option.some.inj h).symm
  | cons i l ih =>
    intro newTid k h
    rw [Sched.findSlot] at h
    split at h
    · next hfree =>
        right
        rcases ih h with rfl | ⟨hk, htid⟩
        · exact ⟨by simp, hfree.2.2⟩
        · exact ⟨by simp [hk], htid⟩
    · split at h
      · contradiction
      · refine (ih h).imp_right fun ⟨hk, htid⟩ => ⟨by simp [hk], htid⟩

/-- The record of a new thread in a slot that was unused. -/
def Thread.fresh (name : List UInt8) (prio tid : Nat) : Thread :=
  { Thread.unused with
    name := name.take THREAD_NAME_MAX, priority := prio, state := .ready, tid := tid, delay := 0 }

/-- `init_thread` fails or fills a free slot. -/
lemma Sched.initThread_cases {N : Nat} {s s' : Sched N} {name : List UInt8} {prio tid : Nat}
    (hslots : ∀ t, t < N → ¬s.Live t → s.storage t = .unused)
    (hinit : s.initThread name prio = some (s', tid)) :
    (tid = THREAD_TID_INVALID ∧ s' = s) ∨
      (tid < N ∧ ¬s.Live tid ∧ prio < THREAD_PRIORITIES ∧
        s' = { s.setThread tid (.fresh name prio tid) with threadNum := s.threadNum + 1 }) := by
  unfold Sched.initThread at hinit
  split at hinit
  · cases hinit
    exact .inl ⟨rfl, rfl⟩
  · next hguard =>
      obtain ⟨-, hprio⟩ := not_or.mp hguard
      split at hinit
      · cases hinit
        exact .inl ⟨rfl, rfl⟩
      · next newTid hslot =>
          split at hinit
          · contradiction
          · next hne =>
              obtain ⟨hs', rfl⟩ := Prod.mk.inj (Option.some.inj hinit)
              obtain ⟨hmem, htid⟩ := (Sched.findSlot_free _ hslot).resolve_left hne
              have hlt := List.mem_range.mp hmem
              have hdead : ¬s.Live newTid := by
                rintro ⟨-, -, heq⟩
                exact hne (heq.symm.trans htid)
              refine .inr ⟨hlt, hdead, Decidable.not_not.mp hprio, ?_⟩
              rw [← hs', hslots newTid hlt hdead]
              rfl

namespace Placed

variable {strict : Prop} {N : Nat} {s s' : Sched N} {out : List Nat} {L : Place → List Nat}
  {r : Nat}

/-- A new thread is in no queue yet. -/
lemma initThread (h : Placed strict s out L) {name : List UInt8} {prio tid : Nat}
    (hN : N < THREAD_TID_INVALID) (hinit : s.initThread name prio = some (s', tid)) :
    (tid = THREAD_TID_INVALID ∧ s' = s) ∨
      (tid < N ∧ ¬s.Live tid ∧
        s' = { s.setThread tid (.fresh name prio tid) with threadNum := s.threadNum + 1 } ∧
        Placed strict s' (tid :: out) L) := by
  refine (Sched.initThread_cases h.slots hinit).imp_right ?_
  rintro ⟨hlt, hdead, hprio, rfl⟩
  exact ⟨hlt, hdead, rfl, (h.born hlt (Nat.lt_trans hlt hN) hdead rfl hprio).congr rfl rfl⟩

/-- `scheduler_add_thread` for a new thread. -/
lemma addThread (h : Placed strict s (r :: out) L)
    (hready : (s.storage r).state = .ready) :
    ∃ queues L', s.addThread r = some (s.setQueues queues, true) ∧
      Placed strict (s.setQueues queues) out L' := by
  have hlive := (h.outside r (by simp)).1
  have hidle : r = 0 → Place.ready (s.storage r).priority = .ready THREAD_PRIO_IDLE ∧
      (s.storage r).terminate = false := by
    rintro rfl
    exact ⟨by rw [h.lowest], h.lasts⟩
  obtain ⟨queues, henq, hplaced⟩ := h.put (q := .ready (s.storage r).priority)
    (u := s.storage r) ⟨hready, rfl⟩ hlive.tid_eq rfl hidle (by simp) (by simp)
  rw [Sched.setThread_self] at hplaced
  have hget : s.getThread r = some (s.storage r) := Sched.getThread_eq_some.mpr ⟨hlive, rfl⟩
  refine ⟨queues, _, ?_, hplaced⟩
  rw [Sched.addThread, hget]
  dsimp only
  rw [if_neg (by simp [hready]), henq]
  rfl

end Placed

end DiegOS.Kernel
