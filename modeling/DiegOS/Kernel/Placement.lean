import DiegOS.Kernel.Scheduler
import Mathlib.Data.List.Basic

/-!
# The places of the threads

What the queues of the scheduler hold while it works: every queue is a list of live
threads whose state goes with the queue, no thread is in two queues, and the idle
thread is ready unless it runs.  Threads that are in no queue are listed; between two
calls of the scheduler this is the running thread.

Main results:

- Theorem `Placed.updateQueues`: the update of the queues keeps the places.
- Theorem `Placed.pickThread`: the next runner is the first thread, by priority
  and then by age, that is not to be terminated.
-/

namespace DiegOS.Kernel

open Lib Function

/-- The records that go with a queue; a resumed thread stays in the wait queue until the
next update. -/
def Place.Fits : Place → Thread → Prop
  | .ready prio, t => t.state = .ready ∧ t.priority = prio
  | .wait, t => t.state = .waiting ∨ t.state = .ready
  | .delay, t => t.state = .waiting ∧ t.wait.events = .none
  | .dead, t => t.state = .dead

/-- The queues hold the lists `L`, and the threads of `out` are in none of them.
In the strict form no live thread is lost and all that wait can be resumed. -/
structure Placed (strict : Prop) {N : Nat} (s : Sched N) (out : List Nat)
    (L : Place → List Nat) : Prop where
  holds : s.queues.Holds L
  slots : ∀ t, t < N → ¬s.Live t → s.storage t = .unused
  member : ∀ q, ∀ t ∈ L q, s.Live t ∧ q.Fits (s.storage t)
  outside : ∀ t ∈ out, s.Live t ∧ ∀ q, t ∉ L q
  nodup : out.Nodup
  waits : ∀ t, s.Live t → t ∉ out → (s.storage t).state = .waiting →
    t ∈ L .wait ∨ (s.storage t).wait.events = .none
  prio : ∀ t, s.Live t → (s.storage t).priority < THREAD_PRIORITIES
  idle : 0 ∈ out ∨ 0 ∈ L (.ready THREAD_PRIO_IDLE)
  lasts : (s.storage 0).terminate = false
  lowest : (s.storage 0).priority = THREAD_PRIO_IDLE
  everyone : strict → ∀ t, s.Live t → t ∈ out ∨ ∃ q, t ∈ L q
  waiting : strict → ∀ t ∈ L .wait, (s.storage t).state = .waiting →
    (s.storage t).terminate = true ∨ (s.storage t).wait.events ≠ .none
  delayed : strict → ∀ t ∈ L .delay, (s.storage t).wait = .TIMEOUT

namespace Placed

variable {strict : Prop} {N : Nat} {s s' : Sched N} {out : List Nat} {L : Place → List Nat}
  {q : Place} {d r : Nat} {l : List Nat}

section

variable (h : Placed strict s out L)
include h

/-- Only the records and the queues matter. -/
lemma congr (hstorage : s'.storage = s.storage)
    (hqueues : s'.queues = s.queues) : Placed strict s' out L := by
  have hlive : ∀ t, s'.Live t ↔ s.Live t := by
    intro t
    unfold Sched.Live
    rw [hstorage]
  constructor
  · rw [hqueues]
    exact h.holds
  · intro t ht hdead
    rw [hstorage]
    exact h.slots t ht fun hl => hdead ((hlive t).mpr hl)
  · intro q t ht
    rw [hlive, hstorage]
    exact h.member q t ht
  · intro t ht
    rw [hlive]
    exact h.outside t ht
  · exact h.nodup
  · intro t hl
    rw [hstorage]
    exact h.waits t ((hlive t).mp hl)
  · intro t hl
    rw [hstorage]
    exact h.prio t ((hlive t).mp hl)
  · exact h.idle
  · rw [hstorage]
    exact h.lasts
  · rw [hstorage]
    exact h.lowest
  · exact fun hstrict t hl => h.everyone hstrict t ((hlive t).mp hl)
  · rw [hstorage]
    exact h.waiting
  · rw [hstorage]
    exact h.delayed

lemma live_idle : s.Live 0 := by
  rcases h.idle with hout | hready
  · exact (h.outside 0 hout).1
  · exact (h.member _ 0 hready).1

/-- The idle thread is in no queue but its own. -/
lemma ne_idle (hd : d ∈ L q) (hq : q ≠ .ready THREAD_PRIO_IDLE) :
    d ≠ 0 := by
  rintro rfl
  rcases h.idle with hout | hready
  · exact (h.outside 0 hout).2 q hd
  · exact h.holds.not_mem hready hq hd

/-- The head of a queue is taken out. -/
lemma take (hcons : L q = d :: l) :
    ∃ queues, s.queues.dequeue q = some (some d, queues) ∧
      Placed strict (s.setQueues queues) (d :: out) (update L q l) := by
  obtain ⟨queues, hdeq, hholds, hnot⟩ := h.holds.dequeue hcons
  have hd : d ∈ L q := by simp [hcons]
  have hsub : ∀ q', ∀ t ∈ update L q l q', t ∈ L q' := by
    intro q' t ht
    by_cases hq : q' = q
    · subst hq
      rw [update_self] at ht
      simp [hcons, ht]
    · rwa [update_of_ne hq] at ht
  have hkeep : ∀ q', ∀ t ∈ L q', t ≠ d → t ∈ update L q l q' := by
    intro q' t ht hne
    by_cases hq : q' = q
    · subst hq
      rw [update_self]
      simpa [hcons, hne] using ht
    · rwa [update_of_ne hq]
  refine ⟨queues, hdeq, hholds, h.slots, fun q' t ht => h.member q' t (hsub q' t ht), ?_, ?_, ?_,
    h.prio, ?_, h.lasts, h.lowest, ?_, ?_, ?_⟩
  · intro t ht
    rcases List.mem_cons.mp ht with rfl | ht
    · exact ⟨(h.member q t hd).1, hnot⟩
    · exact ⟨(h.outside t ht).1, fun q' hq' => (h.outside t ht).2 q' (hsub q' t hq')⟩
  · exact List.nodup_cons.mpr ⟨fun hout => (h.outside d hout).2 q hd, h.nodup⟩
  · intro t hlive hout hstate
    obtain ⟨hne, hout⟩ := not_or.mp (fun hor => hout (List.mem_cons.mpr hor))
    exact (h.waits t hlive hout hstate).imp_left fun hmem => hkeep _ t hmem hne
  · rcases h.idle with hout | hready
    · exact .inl (.tail _ hout)
    · by_cases hd0 : 0 = d
      · exact .inl (by simp [hd0])
      · exact .inr (hkeep _ 0 hready hd0)
  · intro hstrict t hlive
    by_cases htd : t = d
    · exact .inl (by simp [htd])
    · rcases h.everyone hstrict t hlive with hout | ⟨q', hq'⟩
      · exact .inl (.tail _ hout)
      · exact .inr ⟨q', hkeep q' t hq' htd⟩
  · exact fun hstrict t ht => h.waiting hstrict t (hsub _ t ht)
  · exact fun hstrict t ht => h.delayed hstrict t (hsub _ t ht)

end

/-- A thread that was outside is linked into a queue, with a record that fits. -/
lemma link (h : Placed strict s (r :: out) L) {queues : LinkedQueues Place Nat} {u : Thread}
    (hholds : queues.Holds (update L q l)) (hmem : ∀ t, t ∈ l ↔ t = r ∨ t ∈ L q)
    (hfit : q.Fits u) (htid : u.tid = r) (hprio : u.priority = (s.storage r).priority)
    (hidle : r = 0 → q = .ready THREAD_PRIO_IDLE ∧ u.terminate = false)
    (hwait : strict → q = .wait → u.state = .waiting →
      u.terminate = true ∨ u.wait.events ≠ .none)
    (hdelay : strict → q = .delay → u.wait = .TIMEOUT) :
    Placed strict ((s.setThread r u).setQueues queues) out (update L q l) := by
  obtain ⟨hr, hnot⟩ := h.outside r (by simp)
  obtain ⟨hrout, hnodup⟩ := List.nodup_cons.mp h.nodup
  have hlive : ∀ t, ((s.setThread r u).setQueues queues).Live t ↔ s.Live t := by
    intro t
    by_cases htr : t = r
    · subst htr
      simp only [Sched.Live, Sched.setThread_storage, update_self, htid, hr.tid_eq]
    · simp [Sched.Live, htr]
  have hother : ∀ t, t ≠ r →
      ((s.setThread r u).setQueues queues).storage t = s.storage t := by
    intro t htr
    simp [htr]
  have hself : ((s.setThread r u).setQueues queues).storage r = u := by simp
  have hkeep : ∀ q', ∀ t ∈ L q', t ∈ update L q l q' := by
    intro q' t ht
    by_cases hq : q' = q
    · subst hq
      rw [update_self, hmem]
      exact .inr ht
    · rwa [update_of_ne hq]
  have hself' : r ∈ update L q l q := by
    rw [update_self, hmem]
    exact .inl rfl
  have hcases : ∀ q', ∀ t ∈ update L q l q', (t = r ∧ q' = q) ∨ (t ≠ r ∧ t ∈ L q') := by
    intro q' t ht
    by_cases hq : q' = q
    · subst hq
      rw [update_self, hmem] at ht
      rcases ht with rfl | ht
      · exact .inl ⟨rfl, rfl⟩
      · exact .inr ⟨fun htr => hnot q' (htr ▸ ht), ht⟩
    · rw [update_of_ne hq] at ht
      exact .inr ⟨fun htr => hnot q' (htr ▸ ht), ht⟩
  refine ⟨hholds, fun t ht hdead => ?_, fun q' t ht => ?_, fun t ht => ?_, hnodup,
    fun t ht hout hstate => ?_, fun t ht => ?_, ?_, ?_, ?_, fun hstrict t ht => ?_,
    fun hstrict t ht => ?_, fun hstrict t ht => ?_⟩
  · have htr : t ≠ r := by
      rintro rfl
      exact hdead ((hlive t).mpr hr)
    rw [hother t htr]
    exact h.slots t ht fun hl => hdead ((hlive t).mpr hl)
  · rw [hlive]
    rcases hcases q' t ht with ⟨rfl, rfl⟩ | ⟨hne, ht⟩
    · exact ⟨hr, by rwa [hself]⟩
    · rw [hother t hne]
      exact h.member q' t ht
  · rw [hlive]
    have hold := h.outside t (.tail _ ht)
    refine ⟨hold.1, fun q' hq' => ?_⟩
    rcases hcases q' t hq' with ⟨rfl, -⟩ | ⟨-, hin⟩
    · exact hrout ht
    · exact hold.2 q' hin
  · by_cases htr : t = r
    · subst htr
      rw [hself] at hstate ⊢
      cases q with
      | wait => exact .inl hself'
      | delay => exact .inr hfit.2
      | ready prio | dead => simp [Place.Fits, hstate] at hfit
    · rw [hother t htr] at hstate ⊢
      refine (h.waits t ((hlive t).mp ht) ?_ hstate).imp_left (hkeep _ t)
      simp [htr, hout]
  · by_cases htr : t = r
    · subst htr
      rw [hself, hprio]
      exact h.prio t hr
    · rw [hother t htr]
      exact h.prio t ((hlive t).mp ht)
  · by_cases hr0 : r = 0
    · obtain ⟨rfl, -⟩ := hidle hr0
      exact .inr (hr0 ▸ hself')
    · rcases h.idle with hout | hready
      · rcases List.mem_cons.mp hout with heq | hout
        · exact absurd heq.symm hr0
        · exact .inl hout
      · exact .inr (hkeep _ 0 hready)
  · by_cases hr0 : r = 0
    · subst hr0
      rw [hself]
      exact (hidle rfl).2
    · rw [hother 0 (Ne.symm hr0)]
      exact h.lasts
  · by_cases hr0 : r = 0
    · subst hr0
      rw [hself, hprio]
      exact h.lowest
    · rw [hother 0 (Ne.symm hr0)]
      exact h.lowest
  · by_cases htr : t = r
    · subst htr
      exact .inr ⟨q, hself'⟩
    · rcases h.everyone hstrict t ((hlive t).mp ht) with hout | ⟨q', hq'⟩
      · exact .inl ((List.mem_cons.mp hout).resolve_left htr)
      · exact .inr ⟨q', hkeep q' t hq'⟩
  · rcases hcases _ t ht with ⟨rfl, hq⟩ | ⟨hne, ht⟩
    · rw [hself]
      exact hwait hstrict hq.symm
    · rw [hother t hne]
      exact h.waiting hstrict t ht
  · rcases hcases _ t ht with ⟨rfl, hq⟩ | ⟨hne, ht⟩
    · rw [hself]
      exact hdelay hstrict hq.symm
    · rw [hother t hne]
      exact h.delayed hstrict t ht

/-- A thread that was outside is appended to a queue. -/
lemma put (h : Placed strict s (r :: out) L) {u : Thread} (hfit : q.Fits u)
    (htid : u.tid = r) (hprio : u.priority = (s.storage r).priority)
    (hidle : r = 0 → q = .ready THREAD_PRIO_IDLE ∧ u.terminate = false)
    (hwait : strict → q = .wait → u.state = .waiting →
      u.terminate = true ∨ u.wait.events ≠ .none)
    (hdelay : strict → q = .delay → u.wait = .TIMEOUT) :
    ∃ queues, s.queues.enqueue q r = some queues ∧
      Placed strict ((s.setThread r u).setQueues queues) out
        (update L q (L q ++ [r])) := by
  obtain ⟨queues, henq, hholds⟩ := h.holds.enqueue (h.outside r (by simp)).2
  refine ⟨queues, henq, h.link hholds ?_ hfit htid hprio hidle hwait hdelay⟩
  simp [or_comm]

/-- A live thread gets another record that fits where it is. -/
lemma change (h : Placed strict s out L) {t : Nat} {u : Thread} (ht : s.Live t)
    (htid : u.tid = t) (hprio : u.priority = (s.storage t).priority)
    (hfit : ∀ q, t ∈ L q → q.Fits u)
    (hstate : t ∉ out → u.state = .waiting → t ∈ L .wait ∨ u.wait.events = .none)
    (hidle : t = 0 → u.terminate = false)
    (hwait : strict → t ∈ L .wait → u.state = .waiting →
      u.terminate = true ∨ u.wait.events ≠ .none)
    (hdelay : strict → t ∈ L .delay → u.wait = .TIMEOUT) :
    Placed strict (s.setThread t u) out L := by
  have hlive : ∀ i, (s.setThread t u).Live i ↔ s.Live i := by
    intro i
    by_cases hi : i = t
    · subst hi
      simp only [Sched.Live, Sched.setThread_storage, update_self, htid, ht.tid_eq]
    · simp [Sched.Live, hi]
  have hother : ∀ i, i ≠ t → (s.setThread t u).storage i = s.storage i := by
    intro i hi
    simp [hi]
  have hself : (s.setThread t u).storage t = u := by simp
  refine ⟨h.holds, fun i hi hdead => ?_, fun q i hi => ?_, fun i hi => ?_, h.nodup,
    fun i hi hout hst => ?_, fun i hi => ?_, h.idle, ?_, ?_, fun hstrict i hi => ?_,
    fun hstrict i hi => ?_, fun hstrict i hi => ?_⟩
  · have hne : i ≠ t := by
      rintro rfl
      exact hdead ((hlive i).mpr ht)
    rw [hother i hne]
    exact h.slots i hi fun hl => hdead ((hlive i).mpr hl)
  · rw [hlive]
    by_cases hne : i = t
    · subst hne
      rw [hself]
      exact ⟨ht, hfit q hi⟩
    · rw [hother i hne]
      exact h.member q i hi
  · rw [hlive]
    exact h.outside i hi
  · by_cases hne : i = t
    · subst hne
      rw [hself] at hst ⊢
      exact hstate hout hst
    · rw [hother i hne] at hst ⊢
      exact h.waits i ((hlive i).mp hi) hout hst
  · by_cases hne : i = t
    · subst hne
      rw [hself, hprio]
      exact h.prio i ht
    · rw [hother i hne]
      exact h.prio i ((hlive i).mp hi)
  · by_cases hne : t = 0
    · subst hne
      rw [hself]
      exact hidle rfl
    · rw [hother 0 (Ne.symm hne)]
      exact h.lasts
  · by_cases hne : t = 0
    · subst hne
      rw [hself, hprio]
      exact h.lowest
    · rw [hother 0 (Ne.symm hne)]
      exact h.lowest
  · exact h.everyone hstrict i ((hlive i).mp hi)
  · by_cases hne : i = t
    · subst hne
      rw [hself]
      exact hwait hstrict hi
    · rw [hother i hne]
      exact h.waiting hstrict i hi
  · by_cases hne : i = t
    · subst hne
      rw [hself]
      exact hdelay hstrict hi
    · rw [hother i hne]
      exact h.delayed hstrict i hi

/-- A thread outside that does not wait for an event is left alone. -/
lemma drop (h : Placed strict s (d :: out) L) (hd : d ≠ 0)
    (hevents : (s.storage d).state = .waiting → (s.storage d).wait.events = .none)
    (hnot : ¬strict) : Placed strict s out L := by
  refine ⟨h.holds, h.slots, h.member, fun t ht => h.outside t (.tail _ ht),
    (List.nodup_cons.mp h.nodup).2, fun t hlive hout hstate => ?_, h.prio, ?_, h.lasts,
    h.lowest, fun hstrict => absurd hstrict hnot, h.waiting, h.delayed⟩
  · by_cases htd : t = d
    · subst htd
      exact .inr (hevents hstate)
    · exact h.waits t hlive (by simp [htd, hout]) hstate
  · refine h.idle.imp_left fun hout => ?_
    exact (List.mem_cons.mp hout).resolve_left (Ne.symm hd)

end Placed

/-! ## What the scheduler does to the records -/

/-- No thread begins to wait; threads that wait without a time-out, or whose time has not
come, go on waiting; threads that are not to be terminated live on. -/
structure Settles {N : Nat} (s s' : Sched N) : Prop where
  now : s'.now = s.now
  waiting : ∀ t, (s'.storage t).state = .waiting → s'.storage t = s.storage t
  kept : ∀ t, s.Live t → (s.storage t).state = .waiting → (s.storage t).terminate = false →
    ((s.storage t).wait.timeout = true → s.now < (s.storage t).delay) →
    s'.storage t = s.storage t
  lives : ∀ t, s.Live t → (s.storage t).terminate = false → (s.storage t).state ≠ .dead →
    s'.Live t ∧ (s'.storage t).terminate = false ∧ (s'.storage t).state ≠ .dead
  born : ∀ t, s'.Live t → s.Live t

namespace Settles

variable {N : Nat} {s s' s'' : Sched N} {t : Nat} {u : Thread}

lemma refl (s : Sched N) : Settles s s :=
  ⟨rfl, fun _ _ => rfl, fun _ _ _ _ _ => rfl, fun _ h₁ h₂ h₃ => ⟨h₁, h₂, h₃⟩, fun _ h => h⟩

lemma trans (h : Settles s s') (h' : Settles s' s'') : Settles s s'' := by
  constructor
  · exact h'.now.trans h.now
  · intro t hstate
    have heq := h'.waiting t hstate
    rw [heq] at hstate
    exact heq.trans (h.waiting t hstate)
  · intro t hlive hstate hterm htime
    have heq := h.kept t hlive hstate hterm htime
    have hlive' : s'.Live t := by
      unfold Sched.Live
      rw [heq]
      exact hlive
    rw [← heq] at hstate hterm htime
    rw [← h.now] at htime
    exact (h'.kept t hlive' hstate hterm htime).trans heq
  · intro t hlive hterm hstate
    obtain ⟨hlive', hterm', hstate'⟩ := h.lives t hlive hterm hstate
    exact h'.lives t hlive' hterm' hstate'
  · intro t hlive
    exact h.born t (h'.born t hlive)

/-- Only the records, the table and the time matter. -/
lemma congr (h : Settles s s') (hstorage : s''.storage = s'.storage)
    (hnow : s''.now = s'.now) : Settles s s'' := by
  have hlive : ∀ t, s''.Live t ↔ s'.Live t := by
    intro t
    unfold Sched.Live
    rw [hstorage]
  constructor
  · rw [hnow, h.now]
  · rw [hstorage]
    exact h.waiting
  · rw [hstorage]
    exact h.kept
  · intro t hl hterm hstate
    rw [hlive, hstorage]
    exact h.lives t hl hterm hstate
  · exact fun t hl => h.born t ((hlive t).mp hl)

lemma of_queues {queues : LinkedQueues Place Nat} (h : Settles (s.setQueues queues) s') :
    Settles s s' := ⟨h.now, h.waiting, h.kept, h.lives, h.born⟩

/-- A thread stops waiting because its time has come or because it is to be terminated. -/
lemma change (ht : s.Live t) (htid : u.tid = t) (hnot : u.state ≠ .waiting)
    (hkept : (s.storage t).state = .waiting → (s.storage t).terminate = false →
      (s.storage t).wait.timeout = true ∧ (s.storage t).delay ≤ s.now)
    (hlives : (s.storage t).terminate = false → (s.storage t).state ≠ .dead →
      u.terminate = false ∧ u.state ≠ .dead) : Settles s (s.setThread t u) := by
  have hlive : ∀ i, (s.setThread t u).Live i ↔ s.Live i := by
    intro i
    by_cases hi : i = t
    · subst hi
      simp only [Sched.Live, Sched.setThread_storage, update_self, htid, ht.tid_eq]
    · simp [Sched.Live, hi]
  have hself : (s.setThread t u).storage t = u := by simp
  have hother : ∀ i, i ≠ t → (s.setThread t u).storage i = s.storage i := by
    intro i hi
    simp [hi]
  refine ⟨rfl, fun i hstate => ?_, fun i _ hstate hterm htime => ?_,
    fun i hi hterm hstate => ?_, fun i => (hlive i).mp⟩
  · by_cases hi : i = t
    · subst hi
      rw [hself] at hstate
      exact absurd hstate hnot
    · exact hother i hi
  · by_cases hi : i = t
    · subst hi
      obtain ⟨htimeout, hle⟩ := hkept hstate hterm
      have hlt := htime htimeout
      omega
    · exact hother i hi
  · rw [hlive]
    refine ⟨hi, ?_⟩
    by_cases hit : i = t
    · subst hit
      rw [hself]
      exact hlives hterm hstate
    · rw [hother i hit]
      exact ⟨hterm, hstate⟩

end Settles

lemma WaitFlags.events_inter (f : WaitFlags) : f.events.inter f = f.events := by
  cases f
  simp [WaitFlags.events, WaitFlags.inter]

lemma Sched.setThread_self {N : Nat} (s : Sched N) (t : Nat) :
    s.setThread t (s.storage t) = s := by
  simp [Sched.setThread]

namespace Placed

variable {strict : Prop} {N : Nat} {s s' : Sched N} {out : List Nat} {L : Place → List Nat}
  {q : Place} {d r : Nat} {l : List Nat}

/-! ## The update of the queues -/

/-- A thread outside whose time has come is resumed and put into its ready queue, or left
alone if it waits for nothing. -/
lemma wake (h : Placed strict s (d :: out) L) (hd : d ≠ 0) (flags : WaitFlags)
    (hstate : (s.storage d).state = .waiting)
    (htime : (s.storage d).wait.timeout = true ∧ (s.storage d).delay ≤ s.now)
    (hflags : flags.inter (s.storage d).wait = .none →
      (s.storage d).wait.events = .none ∧ ¬strict) :
    (s.resumeThread flags d = (s, false) ∧ Placed strict s out L) ∨
    ∃ s' queues, s.resumeThread flags d = (s', true) ∧ s'.running = s.running ∧
      (s'.storage d).priority = (s.storage d).priority ∧
      s'.queues.enqueue (.ready (s.storage d).priority) d = some queues ∧
      Settles s (s'.setQueues queues) ∧
      ∃ L', Placed strict (s'.setQueues queues) out L' ∧ L' .wait = L .wait ∧
        L' .delay = L .delay := by
  have hlive := (h.outside d (by simp)).1
  have hget : s.getThread d = some (s.storage d) := Sched.getThread_eq_some.mpr ⟨hlive, rfl⟩
  by_cases hnone : flags.inter (s.storage d).wait = .none
  · obtain ⟨hevents, hnot⟩ := hflags hnone
    left
    refine ⟨?_, h.drop hd (fun _ => hevents) hnot⟩
    simp [Sched.resumeThread, hget, hstate, hnone]
  · right
    let t : Thread := { s.storage d with wait := .none, state := .ready, delay := 0 }
    have hresume : s.resumeThread flags d = (s.setThread d t, true) := by
      simp [Sched.resumeThread, hget, hstate, hnone, t]
    obtain ⟨queues, henq, hplaced⟩ := h.put (q := .ready (s.storage d).priority) (u := t)
      ⟨rfl, rfl⟩ hlive.tid_eq rfl (fun h0 => absurd h0 hd) (by simp) (by simp)
    refine ⟨s.setThread d t, queues, hresume, rfl, by simp [t], henq, ?_, _, hplaced, ?_, ?_⟩
    · have hsettles : Settles s (s.setThread d t) := by
        refine Settles.change hlive hlive.tid_eq ?_ (fun _ _ => htime) ?_
        · simp [t]
        · exact fun hterm _ => ⟨hterm, by simp [t]⟩
      exact hsettles.congr rfl rfl
    · simp
    · simp

/-- A thread outside that is to be terminated is put into the dead queue. -/
lemma bury (h : Placed strict s (d :: out) L) (hd : d ≠ 0)
    (hterm : (s.storage d).terminate = true) :
    ∃ queues, s.queues.enqueue .dead d = some queues ∧
      Settles s ((s.setThread d { s.storage d with state := .dead }).setQueues queues) ∧
      Placed strict ((s.setThread d { s.storage d with state := .dead }).setQueues queues) out
        (update L .dead (L .dead ++ [d])) := by
  have hlive := (h.outside d (by simp)).1
  obtain ⟨queues, henq, hplaced⟩ := h.put (q := .dead)
    (u := { s.storage d with state := .dead }) rfl hlive.tid_eq rfl
    (fun h0 => absurd h0 hd) (by simp) (by simp)
  refine ⟨queues, henq, ?_, hplaced⟩
  have hsettles : Settles s (s.setThread d { s.storage d with state := .dead }) := by
    refine Settles.change hlive hlive.tid_eq (by simp) ?_ ?_ <;> simp [hterm]
  exact hsettles.congr rfl rfl

/-- A look at the head of the wait queue keeps the places and takes out one thread at
most. -/
lemma visitWaiting (h : Placed strict s out L) (hne : L .wait ≠ []) :
    ∃ s' L', s.visitWaiting = some s' ∧ s'.running = s.running ∧ Settles s s' ∧
      Placed strict s' out L' ∧ (L .wait).length ≤ (L' .wait).length + 1 := by
  obtain ⟨d, l, hcons⟩ := List.exists_cons_of_ne_nil hne
  have hmem : d ∈ L .wait := by simp [hcons]
  have hhead : s.queues.head .wait = some d := by rw [h.holds.head, hcons]; rfl
  obtain ⟨hlive, hfit⟩ := h.member _ d hmem
  have hd := h.ne_idle hmem (by simp)
  obtain ⟨queues, hdeq, hout⟩ := h.take hcons
  have hlen : (L .wait).length = l.length + 1 := by simp [hcons]
  rcases hfit with hstate | hstate
  · by_cases hterm : (s.storage d).terminate = true
    · obtain ⟨queues', henq, hsettles, hplaced⟩ := hout.bury hd hterm
      have hvisit : s.visitWaiting = some ((s.setThread d
          { s.storage d with state := .dead }).setQueues queues') := by
        simp only [Sched.visitWaiting, hhead, hstate, hterm, if_true, hdeq]
        rw [henq]
        rfl
      exact ⟨_, _, hvisit, rfl, hsettles.of_queues, hplaced, by simp [hlen]⟩
    · by_cases htimeout : (s.storage d).wait.timeout = true
      · by_cases hdelay : (s.storage d).delay ≤ s.now
        · have hwake := hout.wake hd (s.storage d).wait.events hstate
            ⟨htimeout, hdelay⟩ (fun hnone => by
              rw [WaitFlags.events_inter] at hnone
              refine ⟨hnone, fun hstrict => ?_⟩
              rcases h.waiting hstrict d hmem hstate with hyes | hyes
              · exact hterm hyes
              · exact hyes hnone)
          rcases hwake with ⟨hresume, hplaced⟩ |
            ⟨s', queues', hresume, hrunning, hprio, henq, hsettles, L', hplaced, hwait, -⟩
          · refine ⟨s.setQueues queues, _, ?_, rfl, (Settles.refl s).congr rfl rfl, hplaced, ?_⟩
            · simp only [Sched.visitWaiting, hhead, hstate, hterm, htimeout, hdelay, if_true,
                hdeq, hlive.tid_eq]
              rw [hresume]
              simp
            · simp [hlen]
          · refine ⟨s'.setQueues queues', L', ?_, hrunning, ?_, hplaced, ?_⟩
            · simp only [Sched.visitWaiting, hhead, hstate, hterm, htimeout, hdelay, if_true,
                hdeq, hlive.tid_eq]
              rw [hresume]
              simp [henq]
            · exact hsettles.of_queues
            · rw [hwait]
              simp [hlen]
        · have hvisit : s.visitWaiting = some { s with
              newDelayWq := Sched.updateNewDelay s.now (s.storage d).delay s.newDelayWq } := by
            simp [Sched.visitWaiting, hhead, hstate, hterm, htimeout, hdelay]
          exact ⟨_, L, hvisit, rfl, (Settles.refl s).congr rfl rfl, h.congr rfl rfl,
            Nat.le_succ _⟩
      · exact ⟨s, L, by simp [Sched.visitWaiting, hhead, hstate, hterm, htimeout], rfl,
          Settles.refl s, h, Nat.le_succ _⟩
  · obtain ⟨queues', henq, hplaced⟩ := hout.put (q := .ready (s.storage d).priority)
      (u := s.storage d) ⟨hstate, rfl⟩ hlive.tid_eq rfl (fun h0 => absurd h0 hd)
      (by simp) (by simp)
    rw [Sched.setThread_self] at hplaced
    have hvisit : s.visitWaiting = some (s.setQueues queues') := by
      simp only [Sched.visitWaiting, hhead, hstate, hdeq]
      rw [henq]
      rfl
    exact ⟨_, _, hvisit, rfl, (Settles.refl s).congr rfl rfl, hplaced, by simp [hlen]⟩

/-- Rolling the wait queue keeps the places. -/
lemma roll (h : Placed strict s out L) :
    ∃ queues L', s.queues.roll .wait = some queues ∧ Placed strict (s.setQueues queues) out L' ∧
      (L' .wait).length = (L .wait).length := by
  cases hcons : L .wait with
  | nil =>
    have hroll := h.holds.roll_nil hcons
    exact ⟨s.queues, L, hroll, h, by rw [hcons]⟩
  | cons d l =>
    obtain ⟨queues, hroll, hholds⟩ := h.holds.roll hcons
    have hmem : ∀ q t, t ∈ update L .wait (l ++ [d]) q ↔ t ∈ L q := by
      intro q t
      by_cases hq : q = .wait
      · subst hq
        rw [update_self, hcons]
        simp [or_comm]
      · rw [update_of_ne hq]
    refine ⟨queues, _, hroll, ⟨hholds, h.slots, ?_, ?_, h.nodup, ?_, h.prio, ?_, h.lasts,
      h.lowest, ?_, ?_, ?_⟩, by simp⟩
    · exact fun q t ht => h.member q t ((hmem q t).mp ht)
    · exact fun t ht => ⟨(h.outside t ht).1, fun q hq => (h.outside t ht).2 q ((hmem q t).mp hq)⟩
    · intro t hlive hout hstate
      rw [hmem]
      exact h.waits t hlive hout hstate
    · rw [hmem]
      exact h.idle
    · intro hstrict t hlive
      simp only [hmem]
      exact h.everyone hstrict t hlive
    · exact fun hstrict t ht => h.waiting hstrict t ((hmem _ t).mp ht)
    · exact fun hstrict t ht => h.delayed hstrict t ((hmem _ t).mp ht)

lemma visitAllWaiting (n : Nat) : ∀ {s : Sched N} {L : Place → List Nat},
    Placed strict s out L → n ≤ (L .wait).length →
    ∃ s' L', s.visitAllWaiting n = some s' ∧ s'.running = s.running ∧ Settles s s' ∧
      Placed strict s' out L' := by
  induction n with
  | zero => exact fun {s L} h _ => ⟨s, L, rfl, rfl, Settles.refl s, h⟩
  | succ n ih =>
    intro s L h hn
    have hne : L .wait ≠ [] := by
      intro hnil
      simp [hnil] at hn
    obtain ⟨s₁, L₁, hvisit, hrun₁, hsettles₁, hplaced₁, hlen⟩ := h.visitWaiting hne
    obtain ⟨queues, L₂, hroll, hplaced₂, hlen₂⟩ := hplaced₁.roll
    obtain ⟨s', L', hrest, hrun', hsettles', hplaced'⟩ := ih hplaced₂ (by omega)
    refine ⟨s', L', ?_, hrun'.trans hrun₁, hsettles₁.trans hsettles'.of_queues, hplaced'⟩
    rw [Sched.visitAllWaiting, hvisit]
    dsimp only
    rw [hroll]
    exact hrest

lemma scheduleWaiting (h : Placed strict s out L) :
    ∃ s' L', s.scheduleWaiting = some s' ∧ s'.running = s.running ∧ Settles s s' ∧
      Placed strict s' out L' := by
  have h' : Placed strict { s with newDelayWq := SCHED_DELAY_MAX } out L := h.congr rfl rfl
  obtain ⟨s', L', heq, hrun, hsettles, hplaced⟩ :=
    visitAllWaiting (L .wait).length h' (Nat.le_refl _)
  refine ⟨s', L', ?_, hrun, ⟨hsettles.now, hsettles.waiting, hsettles.kept, hsettles.lives,
    hsettles.born⟩, hplaced⟩
  rw [Sched.scheduleWaiting, h.holds.count]
  exact heq

/-- A delayed thread outside whose time has come; its wait may have been cancelled. -/
lemma wakeDelayed (h : Placed strict s (d :: out) L) (hd : d ≠ 0)
    (hstate : (s.storage d).state = .waiting) (hdelay : (s.storage d).delay ≤ s.now)
    (hevents : (s.storage d).wait.events = .none)
    (hwait : strict → (s.storage d).wait = .TIMEOUT) :
    (s.resumeThread .TIMEOUT d = (s, false) ∧ Placed strict s out L) ∨
    ∃ s' queues, s.resumeThread .TIMEOUT d = (s', true) ∧ s'.running = s.running ∧
      (s'.storage d).priority = (s.storage d).priority ∧
      s'.queues.enqueue (.ready (s.storage d).priority) d = some queues ∧
      Settles s (s'.setQueues queues) ∧ ∃ L', Placed strict (s'.setQueues queues) out L' := by
  cases htimeout : (s.storage d).wait.timeout with
  | false =>
    have hnone : WaitFlags.TIMEOUT.inter (s.storage d).wait = .none := by
      simp [WaitFlags.inter, WaitFlags.TIMEOUT, WaitFlags.none, htimeout]
    have hnot : ¬strict := by
      intro hstrict
      simp [hwait hstrict, WaitFlags.TIMEOUT] at htimeout
    have hget : s.getThread d = some (s.storage d) :=
      Sched.getThread_eq_some.mpr ⟨(h.outside d (by simp)).1, rfl⟩
    left
    exact ⟨by simp [Sched.resumeThread, hget, hnone], h.drop hd (fun _ => hevents) hnot⟩
  | true =>
    have hwake := h.wake hd .TIMEOUT hstate ⟨htimeout, hdelay⟩ (fun hnone => by
      have htime := congrArg WaitFlags.timeout hnone
      simp [WaitFlags.inter, WaitFlags.TIMEOUT, WaitFlags.none, htimeout] at htime)
    refine hwake.imp_right ?_
    rintro ⟨s', queues, hresume, hrun, hprio, henq, hsettles, L', hplaced, -, -⟩
    exact ⟨s', queues, hresume, hrun, hprio, henq, hsettles, L', hplaced⟩

lemma visitDelayed (n : Nat) : ∀ {s : Sched N} {L : Place → List Nat},
    Placed strict s out L → ∃ s' L', s.visitDelayed n = some s' ∧ s'.running = s.running ∧
      Settles s s' ∧ Placed strict s' out L' := by
  induction n with
  | zero => exact fun {s L} h => ⟨s, L, rfl, rfl, Settles.refl s, h⟩
  | succ n ih =>
    intro s L h
    cases hcons : L .delay with
    | nil =>
      have hhead : s.queues.head .delay = none := by rw [h.holds.head, hcons]; rfl
      exact ⟨s, L, by simp [Sched.visitDelayed, hhead], rfl, Settles.refl s, h⟩
    | cons d l =>
      have hmem : d ∈ L .delay := by simp [hcons]
      have hhead : s.queues.head .delay = some d := by rw [h.holds.head, hcons]; rfl
      obtain ⟨hlive, hstate, hevents⟩ := h.member _ d hmem
      have hd := h.ne_idle hmem (by simp)
      by_cases hdelay : (s.storage d).delay ≤ s.now
      · obtain ⟨queues, hdeq, hout⟩ := h.take hcons
        have hwake := hout.wakeDelayed hd hstate hdelay hevents
          (fun hstrict => h.delayed hstrict d hmem)
        rcases hwake with ⟨hresume, hplaced⟩ |
          ⟨s₁, queues', hresume, hrun₁, hprio, henq, hsettles₁, L₁, hplaced₁⟩
        · obtain ⟨s', L', hrest, hrun, hsettles, hplaced'⟩ := ih hplaced
          refine ⟨s', L', ?_, hrun, hsettles.of_queues, hplaced'⟩
          simp only [Sched.visitDelayed, hhead, hdelay, if_true, hdeq, hlive.tid_eq]
          rw [hresume]
          exact hrest
        · obtain ⟨s', L', hrest, hrun, hsettles, hplaced'⟩ := ih hplaced₁
          refine ⟨s', L', ?_, hrun.trans hrun₁, hsettles₁.of_queues.trans hsettles,
            hplaced'⟩
          simp only [Sched.visitDelayed, hhead, hdelay, if_true, hdeq, hlive.tid_eq]
          rw [hresume]
          rw [hprio, henq]
          exact hrest
      · exact ⟨s, L, by simp [Sched.visitDelayed, hhead, hdelay], rfl, Settles.refl s, h⟩

lemma scheduleDelayed (h : Placed strict s out L) :
    ∃ s' L', s.scheduleDelayed = some s' ∧ s'.running = s.running ∧ Settles s s' ∧
      Placed strict s' out L' := by
  have h' : Placed strict { s with newDelayDq := SCHED_DELAY_MAX } out L := h.congr rfl rfl
  obtain ⟨s₁, L₁, heq, hrun, hsettles, hplaced⟩ := visitDelayed (s.queues.count .delay) h'
  have hsettles' : Settles s s₁ :=
    ⟨hsettles.now, hsettles.waiting, hsettles.kept, hsettles.lives, hsettles.born⟩
  rw [Sched.scheduleDelayed, heq, Option.map_some]
  cases s₁.queues.head .delay with
  | none => exact ⟨s₁, L₁, rfl, hrun, hsettles', hplaced⟩
  | some ptr => exact ⟨_, L₁, rfl, hrun, hsettles'.congr rfl rfl, hplaced.congr rfl rfl⟩

/-- The update of the queues keeps the places. -/
theorem updateQueues (h : Placed strict s out L) :
    ∃ s' L', s.updateQueues = some s' ∧ s'.running = s.running ∧ Settles s s' ∧
      Placed strict s' out L' := by
  obtain ⟨s₁, L₁, heq₁, hrun₁, hsettles₁, hplaced₁⟩ : ∃ s₁ L₁,
      (if s.queues.count .wait ≠ 0 then s.scheduleWaiting else some s) = some s₁ ∧
        s₁.running = s.running ∧ Settles s s₁ ∧ Placed strict s₁ out L₁ := by
    split
    · exact h.scheduleWaiting
    · exact ⟨s, L, rfl, rfl, Settles.refl s, h⟩
  obtain ⟨s₂, L₂, heq₂, hrun₂, hsettles₂, hplaced₂⟩ : ∃ s₂ L₂,
      (if s₁.queues.count .delay ≠ 0 then s₁.scheduleDelayed else some s₁) = some s₂ ∧
        s₂.running = s₁.running ∧ Settles s₁ s₂ ∧ Placed strict s₂ out L₂ := by
    split
    · exact hplaced₁.scheduleDelayed
    · exact ⟨s₁, L₁, rfl, rfl, Settles.refl s₁, hplaced₁⟩
  refine ⟨{ s₂ with period :=
      if s₂.newDelayDq < s₂.newDelayWq then s₂.newDelayDq else s₂.newDelayWq }, L₂, ?_,
    hrun₂.trans hrun₁, (hsettles₁.trans hsettles₂).congr rfl rfl, hplaced₂.congr rfl rfl⟩
  rw [Sched.updateQueues, heq₁, Option.bind_some, heq₂, Option.map_some]

/-! ## The next runner -/

/-- The first thread of a list that is not to be terminated. -/
def firstLasting (s : Sched N) (l : List Nat) : Option Nat :=
  l.find? fun t => !(s.storage t).terminate

lemma firstLasting_congr (h : ∀ t, (s'.storage t).terminate = (s.storage t).terminate)
    (l : List Nat) : firstLasting s' l = firstLasting s l := by
  simp only [firstLasting, h]

/-- The waiting and the sleeping threads stay, and so do the delays that were found. -/
structure Rests (s s' : Sched N) (L L' : Place → List Nat) : Prop where
  wait : L' .wait = L .wait
  delay : L' .delay = L .delay
  newDelayWq : s'.newDelayWq = s.newDelayWq
  newDelayDq : s'.newDelayDq = s.newDelayDq

lemma Rests.refl (s : Sched N) (L : Place → List Nat) : Rests s s L L := ⟨rfl, rfl, rfl, rfl⟩

lemma Rests.trans {s'' : Sched N} {L' L'' : Place → List Nat} (h : Rests s s' L L')
    (h' : Rests s' s'' L' L'') : Rests s s'' L L'' :=
  ⟨h'.wait.trans h.wait, h'.delay.trans h.delay, h'.newDelayWq.trans h.newDelayWq,
    h'.newDelayDq.trans h.newDelayDq⟩

/-- `new_runner` takes the first thread that is not to be terminated, and moves those
before it to the dead queue. -/
lemma newRunner {i : Nat} (l : List Nat) : ∀ {s : Sched N} {L : Place → List Nat},
    Placed strict s out L → L (.ready i) = l →
    ∃ s' b L' out', s.newRunner i l.length = some (s', b) ∧ Settles s s' ∧
      Placed strict s' out' L' ∧ (∀ t, (s'.storage t).terminate = (s.storage t).terminate) ∧
      (∀ j, j ≠ i → L' (.ready j) = L (.ready j)) ∧ Rests s s' L L' ∧
      match firstLasting s l with
      | none => b = false ∧ out' = out ∧ s'.running = s.running ∧ L' (.ready i) = []
      | some r => b = true ∧ out' = r :: out ∧ s'.running = some r ∧
          (s'.storage r).state = .running := by
  induction l with
  | nil =>
    intro s L h hl
    exact ⟨s, false, L, out, rfl, Settles.refl s, h, fun _ => rfl, fun _ _ => rfl,
      Rests.refl s L, rfl, rfl, rfl, hl⟩
  | cons d l ih =>
    intro s L h hcons
    have hmem : d ∈ L (.ready i) := by simp [hcons]
    obtain ⟨hlive, hstate, hprio⟩ := h.member _ d hmem
    obtain ⟨queues, hdeq, hout⟩ := h.take hcons
    cases hterm : (s.storage d).terminate with
    | true =>
      have hd : d ≠ 0 := by
        rintro rfl
        simp [h.lasts] at hterm
      obtain ⟨queues', henq, hsettles₁, hplaced₁⟩ := hout.bury hd hterm
      have hterm₁ : ∀ t, ((((s.setQueues queues).setThread d
          { (s.setQueues queues).storage d with state := .dead }).setQueues
            queues').storage t).terminate = (s.storage t).terminate := by
        intro t
        by_cases htd : t = d
        · subst htd
          simp
        · simp [htd]
      obtain ⟨s', b, L', out', heq, hsettles, hplaced, hterms, hothers, hrests, hres⟩ :=
        ih hplaced₁ (by simp)
      refine ⟨s', b, L', out', ?_, hsettles₁.of_queues.trans hsettles, hplaced,
        fun t => (hterms t).trans (hterm₁ t), fun j hj => ?_, ?_, ?_⟩
      · rw [List.length_cons, Sched.newRunner, hdeq]
        dsimp only
        rw [if_pos hterm, henq]
        exact heq
      · rw [hothers j hj]
        simp [hj]
      · exact ⟨hrests.wait.trans (by simp), hrests.delay.trans (by simp), hrests.newDelayWq,
          hrests.newDelayDq⟩
      · have hfirst : firstLasting s (d :: l) = firstLasting s l := by
          simp [firstLasting, hterm]
        rw [firstLasting_congr hterm₁] at hres
        rw [hfirst]
        exact hres
    | false =>
      have hnot := (hout.outside d (by simp)).2
      have hplaced := hout.change (u := { s.storage d with state := .running }) hlive
        hlive.tid_eq rfl (fun q hq => absurd hq (hnot q)) (fun hd => absurd (by simp) hd)
        (fun h0 => by subst h0; exact h.lasts) (fun _ hq => absurd hq (hnot _))
        (fun _ hq => absurd hq (hnot _))
      have hsettles : Settles s (s.setThread d { s.storage d with state := .running }) := by
        refine Settles.change hlive hlive.tid_eq (by simp) ?_ ?_
        · simp [hstate]
        · simp [hterm]
      have hrun : Sched.newRunner i (d :: l).length s = some
          ({ s.setThread d { s.storage d with state := .running } with
            queues := queues, running := some d }, true) := by
        rw [List.length_cons, Sched.newRunner, hdeq]
        dsimp only
        rw [if_neg (by simp [hterm])]
      have hfirst : firstLasting s (d :: l) = some d := by simp [firstLasting, hterm]
      refine ⟨_, _, _, d :: out, hrun, hsettles.congr rfl rfl, hplaced.congr rfl rfl,
        fun t => ?_, fun j hj => by simp [hj], ⟨by simp, by simp, rfl, rfl⟩, ?_⟩
      · by_cases htd : t = d
        · subst htd
          simp
        · simp [htd]
      · rw [hfirst]
        simp

/-- The priorities are tried from the highest to the lowest one. -/
lemma selectRunner (ps : List Nat) : ∀ {s : Sched N} {L : Place → List Nat},
    Placed strict s out L → ps.Nodup →
    firstLasting s (ps.flatMap fun i => L (.ready i)) = some r →
    ∃ s' L', Sched.selectRunner ps s = some s' ∧ Settles s s' ∧ Rests s s' L L' ∧
      Placed strict s' (r :: out) L' ∧ s'.running = some r ∧ (s'.storage r).state = .running ∧
      (s'.storage r).terminate = false := by
  induction ps with
  | nil => simp [firstLasting]
  | cons i ps ih =>
    intro s L h hnodup hfirst
    obtain ⟨hi, hnodup'⟩ := List.nodup_cons.mp hnodup
    rw [List.flatMap_cons] at hfirst
    unfold firstLasting at hfirst
    rw [List.find?_append] at hfirst
    have hlast : ∀ t, firstLasting s (L (.ready i)) = some t →
        (s.storage t).terminate = false := by
      intro t ht
      simpa using List.find?_some ht
    obtain ⟨s₁, b, L₁, out₁, heq, hsettles, hplaced, hterms, hothers, hrests, hres⟩ :=
      newRunner (i := i) (L (.ready i)) h rfl
    rw [Sched.selectRunner, h.holds.count]
    cases hsome : firstLasting s (L (.ready i)) with
    | some t =>
      have hcount : (L (.ready i)).length ≠ 0 := by
        intro hzero
        simp [List.length_eq_zero_iff.mp hzero, firstLasting] at hsome
      obtain rfl : t = r := by
        unfold firstLasting at hsome
        rw [hsome] at hfirst
        simpa using hfirst
      rw [hsome] at hres
      obtain ⟨rfl, rfl, hrun, hstate⟩ := hres
      refine ⟨s₁, L₁, ?_, hsettles, hrests, hplaced, hrun, hstate, ?_⟩
      · rw [if_pos hcount, heq]
      · rw [hterms]
        exact hlast t hsome
    | none =>
      have hrest : firstLasting s (ps.flatMap fun i => L (.ready i)) = some r := by
        unfold firstLasting at hsome
        rw [hsome, Option.none_or] at hfirst
        exact hfirst
      rw [hsome] at hres
      obtain ⟨rfl, rfl, hrun, hnil⟩ := hres
      by_cases hcount : (L (.ready i)).length ≠ 0
      · rw [if_pos hcount, heq]
        have hlists : (ps.flatMap fun i => L₁ (.ready i)) =
            ps.flatMap fun i => L (.ready i) := by
          apply List.flatMap_congr
          intro j hj
          exact hothers j (by rintro rfl; exact hi hj)
        rw [← firstLasting_congr hterms, ← hlists] at hrest
        obtain ⟨s', L', heq', hsettles', hrests', hrest'⟩ := ih hplaced hnodup' hrest
        exact ⟨s', L', heq', hsettles.trans hsettles', hrests.trans hrests', hrest'⟩
      · rw [if_neg hcount]
        exact ih h hnodup' hrest

/-- The slot of a dead thread outside is released. -/
lemma free (h : Placed strict s (d :: out) L) (hd : d ≠ 0) :
    Placed strict (s.doneThread d).1 out L := by
  obtain ⟨hlive, hnot⟩ := h.outside d (by simp)
  have heq : (s.doneThread d).1 = { s.setThread d .unused with
      threadNum := s.threadNum - 1, queues := s.queues.setNext d none } := by
    simp [Sched.doneThread, hlive]
  have hstorage : ∀ t, t ≠ d → (s.doneThread d).1.storage t = s.storage t := by
    intro t htd
    simp [heq, htd]
  have hlives : ∀ t, (s.doneThread d).1.Live t ↔ s.Live t ∧ t ≠ d := by
    intro t
    by_cases htd : t = d
    · subst htd
      have hne : THREAD_TID_INVALID ≠ t := fun hinv => by
        have := hlive.1
        omega
      simp [Sched.Live, heq, Thread.unused, hne]
    · simp [Sched.Live, hstorage t htd, htd]
  have hmem : ∀ q t, t ∈ L q → t ≠ d := by
    rintro q t ht rfl
    exact hnot q ht
  refine ⟨?_, fun t ht hdead => ?_, fun q t ht => ?_, fun t ht => ?_,
    (List.nodup_cons.mp h.nodup).2, fun t hl hout hstate => ?_, fun t hl => ?_, ?_, ?_, ?_,
    fun hstrict t hl => ?_, fun hstrict t ht => ?_, fun hstrict t ht => ?_⟩
  · rw [heq]
    exact h.holds.setNext hnot none
  · by_cases htd : t = d
    · subst htd
      simp [heq]
    · rw [hstorage t htd]
      exact h.slots t ht fun hl => hdead ((hlives t).mpr ⟨hl, htd⟩)
  · rw [hlives, hstorage t (hmem q t ht)]
    exact ⟨⟨(h.member q t ht).1, hmem q t ht⟩, (h.member q t ht).2⟩
  · have htd : t ≠ d := by
      rintro rfl
      exact (List.nodup_cons.mp h.nodup).1 ht
    rw [hlives]
    have hold := h.outside t (.tail _ ht)
    exact ⟨⟨hold.1, htd⟩, hold.2⟩
  · obtain ⟨hl, htd⟩ := (hlives t).mp hl
    rw [hstorage t htd] at hstate ⊢
    exact h.waits t hl (by simp [htd, hout]) hstate
  · obtain ⟨hl, htd⟩ := (hlives t).mp hl
    rw [hstorage t htd]
    exact h.prio t hl
  · refine h.idle.imp_left fun hout => ?_
    exact (List.mem_cons.mp hout).resolve_left (Ne.symm hd)
  · rw [hstorage 0 (Ne.symm hd)]
    exact h.lasts
  · rw [hstorage 0 (Ne.symm hd)]
    exact h.lowest
  · obtain ⟨hl, htd⟩ := (hlives t).mp hl
    refine (h.everyone hstrict t hl).imp_left fun hout => ?_
    exact (List.mem_cons.mp hout).resolve_left htd
  · rw [hstorage t (hmem _ t ht)]
    exact h.waiting hstrict t ht
  · rw [hstorage t (hmem _ t ht)]
    exact h.delayed hstrict t ht

end Placed

/-- Releasing a dead thread's slot does nothing to the others. -/
lemma Settles.free {N : Nat} {s : Sched N} {d : Nat} (hlive : s.Live d)
    (hdead : (s.storage d).state = .dead) : Settles s (s.doneThread d).1 := by
  have heq : (s.doneThread d).1 = { s.setThread d .unused with
      threadNum := s.threadNum - 1, queues := s.queues.setNext d none } := by
    simp [Sched.doneThread, hlive]
  have hstorage : ∀ t, t ≠ d → (s.doneThread d).1.storage t = s.storage t := by
    intro t htd
    simp [heq, htd]
  have hself : (s.doneThread d).1.storage d = .unused := by simp [heq]
  refine ⟨by rw [heq]; rfl, fun t hstate => ?_, fun t _ hstate _ _ => ?_,
    fun t hl hterm hstate => ?_, fun t hl => ?_⟩
  · by_cases htd : t = d
    · subst htd
      rw [hself] at hstate
      simp [Thread.unused] at hstate
    · exact hstorage t htd
  · refine hstorage t ?_
    rintro rfl
    simp [hdead] at hstate
  · have htd : t ≠ d := by
      rintro rfl
      exact hstate hdead
    rw [hstorage t htd]
    refine ⟨?_, hterm, hstate⟩
    unfold Sched.Live
    rw [hstorage t htd]
    exact hl
  · by_cases htd : t = d
    · rw [htd]
      exact hlive
    · unfold Sched.Live at hl ⊢
      rwa [hstorage t htd] at hl

namespace Placed

variable {strict : Prop} {N : Nat} {s s' : Sched N} {out : List Nat} {L : Place → List Nat}
  {q : Place} {d r : Nat} {l : List Nat}

/-- `house_keeping` empties the dead queue. -/
lemma houseKeeping (l : List Nat) : ∀ {s : Sched N} {L : Place → List Nat},
    Placed strict s out L → r ∈ out → s.running = some r → L .dead = l →
    ∃ s' L', s.houseKeeping l.length = some s' ∧ s'.running = some r ∧ Settles s s' ∧
      Rests s s' L L' ∧ Placed strict s' out L' ∧ s'.storage r = s.storage r := by
  induction l with
  | nil =>
    exact fun {s L} h _ hrun _ => ⟨s, L, rfl, hrun, Settles.refl s, Rests.refl s L, h, rfl⟩
  | cons d l ih =>
    intro s L h hr hrun hcons
    have hmem : d ∈ L .dead := by simp [hcons]
    have hd := h.ne_idle hmem (by simp)
    have hdr : d ≠ r := by
      rintro rfl
      exact (h.outside d hr).2 _ hmem
    obtain ⟨hlive, hdead⟩ := h.member _ d hmem
    obtain ⟨queues, hdeq, hout⟩ := h.take hcons
    have hsettles₁ : Settles (s.setQueues queues) ((s.setQueues queues).doneThread d).1 :=
      Settles.free hlive hdead
    have hrun₁ : ((s.setQueues queues).doneThread d).1.running = some r := by
      unfold Sched.doneThread
      split <;> exact hrun
    have hstorage₁ : ((s.setQueues queues).doneThread d).1.storage r = s.storage r := by
      unfold Sched.doneThread
      split <;> simp [Ne.symm hdr]
    have hrests₁ : Rests s ((s.setQueues queues).doneThread d).1 L
        (update L .dead l) := by
      unfold Sched.doneThread
      split <;> exact ⟨by simp, by simp, rfl, rfl⟩
    obtain ⟨s', L', heq, hrun', hsettles, hrests, hplaced, hstorage⟩ :=
      ih (hout.free hd) hr hrun₁ (by simp)
    refine ⟨s', L', ?_, hrun', hsettles₁.of_queues.trans hsettles, hrests₁.trans hrests, hplaced,
      hstorage.trans hstorage₁⟩
    have htid : (s.storage d).tid ≠ (s.storage r).tid := by
      rw [hlive.tid_eq, (h.outside r hr).1.tid_eq]
      exact hdr
    rw [List.length_cons, Sched.houseKeeping, hdeq]
    rw [hrun]
    dsimp only
    rw [if_pos htid, hlive.tid_eq]
    exact heq

/-- The thread that is picked is the first one, by priority and then by age, that is not
to be terminated. -/
theorem pickThread (h : Placed strict s [] L) :
    ∃ s' r L', s.pickThread = some s' ∧
      firstLasting s ((List.range THREAD_PRIORITIES).flatMap fun i => L (.ready i)) = some r ∧
      s'.running = some r ∧ Settles s s' ∧ Placed strict s' [r] L' ∧ Rests s s' L L' ∧
      (s'.storage r).state = .running ∧ (s'.storage r).terminate = false := by
  have hidle : 0 ∈ L (.ready THREAD_PRIO_IDLE) := by simpa using h.idle
  have hsome : ∃ r, firstLasting s
      ((List.range THREAD_PRIORITIES).flatMap fun i => L (.ready i)) = some r := by
    rw [← Option.isSome_iff_exists]
    apply List.find?_isSome.mpr
    refine ⟨0, List.mem_flatMap.mpr ⟨THREAD_PRIO_IDLE, ?_, hidle⟩, by simp [h.lasts]⟩
    simp [THREAD_PRIORITIES, THREAD_PRIO_IDLE]
  obtain ⟨r, hr⟩ := hsome
  obtain ⟨s₁, L₁, heq₁, hsettles₁, hrests₁, hplaced₁, hrun₁, hstate₁, hterm₁⟩ :=
    selectRunner _ h (List.nodup_range) hr
  rw [Sched.pickThread, heq₁, Option.bind_some]
  split
  · obtain ⟨s', L', heq, hrun, hsettles, hrests, hplaced, hstorage⟩ :=
      houseKeeping (L₁ .dead) hplaced₁ (by simp) hrun₁ rfl
    rw [hplaced₁.holds.count]
    refine ⟨s', r, L', heq, hr, hrun, hsettles₁.trans hsettles, hplaced, hrests₁.trans hrests,
      ?_, ?_⟩
    · rw [hstorage]
      exact hstate₁
    · rw [hstorage]
      exact hterm₁
  · exact ⟨s₁, r, L₁, rfl, hr, hrun₁, hsettles₁, hplaced₁, hrests₁, hstate₁, hterm₁⟩

end Placed

end DiegOS.Kernel
