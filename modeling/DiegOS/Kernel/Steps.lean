import DiegOS.Kernel.Waking

/-!
# Steps of the kernel

What the parts of an action do to the places of the threads.  Up to `schedule_thread` an
action changes the record of its thread only to take it out of the processor.

Main results:

- Theorem `Sound.updateSchedule`: an update keeps the places of the threads.
- Theorem `System.removeThread_cases`: what `scheduler_remove_thread` does to a thread
  in each state.
-/

namespace DiegOS.Kernel

open Lib

variable {N : Nat}

/-- Between two actions the running thread is in no queue. -/
structure Sound (strict : Prop) (k : System N) : Prop where
  size : N < THREAD_TID_INVALID
  placed : ∃ L, Placed strict k.sched k.sched.running.toList L
  runner : ∀ r ∈ k.sched.running,
    (k.sched.storage r).state = .running ∧ (k.sched.storage r).terminate = false

/-- An action up to the call of `schedule_thread`, if it makes one. -/
structure Acted (strict : Prop) (k k' : System N) (outcome : Outcome) : Prop where
  running : k'.sched.running = k.sched.running
  placed : ∃ L, Placed strict k'.sched
    (if outcome = .schedules then [] else k.sched.running.toList) L
  runner : outcome ≠ .schedules → ∀ r ∈ k.sched.running,
    k'.sched.storage r = k.sched.storage r

/-- A kill does not reach a thread that only waits for a mutex, nor, in the strict form, one
that only sleeps. -/
def Spares (strict : Prop) (k : System N) : Action → Prop
  | .threadKill tid => k.sched.Live tid → (k.sched.storage tid).state = .waiting →
      (k.sched.storage tid).wait ≠ .MUTEX ∧ (strict → (k.sched.storage tid).wait ≠ .TIMEOUT)
  | _ => True

instance (strict : Prop) [Decidable strict] (k : System N) (a : Action) :
    Decidable (Spares strict k a) := by
  cases a with
  | threadKill tid => exact inferInstanceAs (Decidable (k.sched.Live tid → _ → _))
  | _ => exact isTrue trivial

namespace System

variable {strict : Prop} {k k' : System N} {out : List Nat} {L : Place → List Nat}
  {r tid : Nat} {outcome : Outcome}

/-- The running thread begins to wait. -/
lemma waitThread_spec (h : Placed strict k.sched [r] L) (hrun : k.sched.running = some r)
    (hr : r ≠ 0) {flags : WaitFlags} (hflags : flags.events ≠ .none) (msecs : Nat) (c : Call) :
    ∃ queues L', k.waitThread flags msecs c = some ({ k with
        sched := (k.sched.setThread r
          (Placed.waitingRecord k.sched r flags msecs)).setQueues queues
        call := Function.update k.call r c }, true) ∧
      Placed strict ((k.sched.setThread r
        (Placed.waitingRecord k.sched r flags msecs)).setQueues queues) [] L' := by
  obtain ⟨queues, L', heq, hplaced⟩ := h.waitThread hrun hr hflags msecs
  refine ⟨queues, L', ?_, hplaced⟩
  unfold waitThread
  rw [hrun]
  rw [heq]
  rfl

/-! ## Loops over items -/

lemma resumeItems_shape {w : Nat} (l : List Nat) : ∀ {k k' : System N},
    resumeItems w l k = some k' → ∃ item waitQueue ioIds pollTable pollIds, k' = { k with
      item := item
      waitQueue := waitQueue
      ioIds := ioIds
      pollTable := pollTable
      pollIds := pollIds } := by
  induction l with
  | nil =>
    intro k k' h
    cases h
    exact ⟨_, _, _, _, _, rfl⟩
  | cons a l ih =>
    intro k k' h
    rw [resumeItems] at h
    split at h
    · contradiction
    · next table hitem =>
        obtain ⟨_, _, _, _, _, rfl⟩ := ih h
        unfold pollWakeup
        dsimp only
        split
        · exact ⟨_, _, _, _, _, rfl⟩
        · exact ⟨_, _, _, _, _, rfl⟩
    · obtain ⟨_, _, _, _, _, rfl⟩ := ih h
      exact ⟨_, _, _, _, _, rfl⟩

lemma cancelItems_shape (tid : Nat) (l : List Nat) : ∀ k : System N,
    ∃ item waitQueue, cancelItems tid l k = { k with
      item := item
      waitQueue := waitQueue } := by
  induction l with
  | nil => exact fun k => ⟨_, _, rfl⟩
  | cons w l ih =>
    intro k
    rw [cancelItems]
    split
    · exact ih k
    · obtain ⟨item, waitQueue, heq⟩ := ih (k.removeItem w _)
      exact ⟨item, waitQueue, heq⟩

lemma pollWait_shape (table : Nat) (l : List (Nat × Nat)) : ∀ k : System N,
    ∃ item waitQueue pollTable, pollWait table l k = { k with
      item := item
      waitQueue := waitQueue
      pollTable := pollTable } := by
  induction l with
  | nil => exact fun k => ⟨_, _, _, rfl⟩
  | cons p l ih =>
    intro k
    rw [pollWait]
    obtain ⟨item, waitQueue, pollTable, heq⟩ := ih _
    exact ⟨item, waitQueue, pollTable, heq⟩

lemma pollFirst_shape (table : Nat) (l : List (Option PollAnswer)) : ∀ k : System N,
    ∃ item waitQueue pollTable, (pollFirst table l k).1 = { k with
      item := item
      waitQueue := waitQueue
      pollTable := pollTable } := by
  induction l with
  | nil => exact fun k => ⟨_, _, _, rfl⟩
  | cons answer l ih =>
    intro k
    cases answer with
    | none => exact ih k
    | some answer =>
      obtain ⟨item, waitQueue, pollTable, heq⟩ := pollWait_shape table
        answer.waits k
      rw [pollFirst]
      rw [heq]
      split
      · exact ⟨_, _, _, rfl⟩
      · obtain ⟨item, waitQueue, pollTable, heq⟩ := ih _
        exact ⟨item, waitQueue, pollTable, heq⟩
      · obtain ⟨item, waitQueue, pollTable, heq⟩ := ih _
        exact ⟨item, waitQueue, pollTable, heq⟩

lemma pollFirst_sched (table : Nat) (l : List (Option PollAnswer)) (k : System N) :
    (pollFirst table l k).1.sched = k.sched := by
  obtain ⟨_, _, _, heq⟩ := pollFirst_shape table l k
  rw [heq]

lemma cleanupItems_shape (l : List (Nat × Nat)) : ∀ {k k' : System N},
    cleanupItems l k = some k' → ∃ item waitQueue, k' = { k with
      item := item
      waitQueue := waitQueue } := by
  induction l with
  | nil =>
    intro k k' h
    cases h
    exact ⟨_, _, rfl⟩
  | cons p l ih =>
    intro k k' h
    rw [cleanupItems] at h
    split at h
    · obtain ⟨_, _, rfl⟩ := ih h
      exact ⟨_, _, rfl⟩
    · split at h
      · exact ih h
      · contradiction

lemma cleanup_shape {table : Nat} (h : k.cleanup table = some k') :
    ∃ item waitQueue, k' = { k with
      item := item
      waitQueue := waitQueue
      pollTables := k.pollTables.erase table } := by
  obtain ⟨k₁, heq, rfl⟩ := Option.map_eq_some_iff.mp h
  obtain ⟨_, _, rfl⟩ := cleanupItems_shape _ heq
  exact ⟨_, _, rfl⟩

lemma pollEnd_shape {table : Nat} {again : List (Option (Option Bool))}
    (h : k.pollEnd table again = some (k', outcome)) :
    outcome ≠ .schedules ∧ k.cleanup table = some k' := by
  obtain ⟨k₁, heq, hout⟩ := Option.map_eq_some_iff.mp h
  split at hout
  · cases hout
    exact ⟨by simp, heq⟩
  · cases hout
    exact ⟨by simp, heq⟩
  · cases hout
    exact ⟨by simp, heq⟩

end System

/-! ## Actions up to the call of the scheduler -/

namespace Acted

variable {strict : Prop} {k k' k'' : System N} {outcome : Outcome}

/-- Only the data of the scheduler matter. -/
lemma congr (h : Acted strict k k' outcome) (hsched : k''.sched = k'.sched) :
    Acted strict k k'' outcome := by
  refine ⟨?_, ?_, fun hout r hr => ?_⟩
  · rw [hsched]
    exact h.running
  · rw [hsched]
    exact h.placed
  · rw [hsched]
    exact h.runner hout r hr

lemma same (h : Sound strict k) (hsched : k'.sched = k.sched) (hout : outcome ≠ .schedules) :
    Acted strict k k' outcome := by
  refine ⟨by rw [hsched], ?_, fun _ r _ => by rw [hsched]⟩
  rw [if_neg hout, hsched]
  exact h.placed

lemma blocks {L : Place → List Nat} (hrun : k'.sched.running = k.sched.running)
    (hplaced : Placed strict k'.sched [] L) : Acted strict k k' .schedules :=
  ⟨hrun, ⟨L, by simpa using hplaced⟩, fun hout => absurd rfl hout⟩

end Acted

/-- Threads in a queue do not run. -/
lemma Placed.not_mem_of_running {strict : Prop} {s : Sched N} {out : List Nat}
    {L : Place → List Nat} {t : Nat} (h : Placed strict s out L)
    (hstate : (s.storage t).state = .running) (q : Place) : t ∉ L q := by
  intro ht
  have hfit := (h.member q t ht).2
  cases q with
  | ready prio | wait | delay | dead => simp [Place.Fits, hstate] at hfit

/-- A live thread that is in no queue can be listed. -/
lemma Placed.also {strict : Prop} {s : Sched N} {out : List Nat} {L : Place → List Nat}
    {t : Nat} (h : Placed strict s out L) (hlive : s.Live t) (hout : t ∉ out)
    (hnot : ∀ q, t ∉ L q) : Placed strict s (t :: out) L := by
  refine ⟨h.holds, h.slots, h.member, ?_, List.nodup_cons.mpr ⟨hout, h.nodup⟩, ?_, h.prio,
    h.idle.imp_left fun hin => .tail _ hin, h.lasts, h.lowest, ?_, h.waiting,
    h.delayed⟩
  · intro i hi
    rcases List.mem_cons.mp hi with rfl | hi
    · exact ⟨hlive, hnot⟩
    · exact h.outside i hi
  · exact fun i hi hnot => h.waits i hi fun hin => hnot (.tail _ hin)
  · exact fun hstrict i hi =>
      (h.everyone hstrict i hi).imp_left fun hin => .tail _ hin

namespace Sound

variable {strict : Prop} {k k' k₀ : System N} {outcome : Outcome} {r tid : Nat}

variable (h : Sound strict k)
include h

lemma placed_of_running (hrun : k.sched.running = some r) :
    ∃ L, Placed strict k.sched [r] L := by
  obtain ⟨L, hplaced⟩ := h.placed
  rw [hrun] at hplaced
  exact ⟨L, hplaced⟩

lemma live (hrun : k.sched.running = some r) : k.sched.Live r := by
  obtain ⟨L, hplaced⟩ := h.placed_of_running hrun
  exact (hplaced.outside r (by simp)).1

lemma runningTid (hrun : k.sched.running = some r) :
    k.sched.runningTid = r := by
  rw [Sched.runningTid, hrun]
  exact (h.live hrun).tid_eq

theorem updateSchedule (heq : k.updateSchedule = some k') :
    k'.sched.running = k.sched.running ∧ Sound strict k' ∧
      ∀ r ∈ k.sched.running, k'.sched.storage r = k.sched.storage r := by
  obtain ⟨L, hplaced⟩ := h.placed
  obtain ⟨s, L', heq', hrun, hstill, -, hplaced'⟩ := System.updateSchedule_spec hplaced
  rw [heq'] at heq
  cases heq
  have hsame : ∀ r ∈ k.sched.running, s.storage r = k.sched.storage r := by
    intro r hr
    have hstate := (h.runner r hr).1
    have hawake := k.resumeAll_awakens.of_ne_waiting (t := r) (by simp [hstate])
    exact (hstill r (by simp [hawake, hstate])).trans hawake
  refine ⟨hrun, ⟨h.size, ⟨L', ?_⟩, fun r hr => ?_⟩, hsame⟩
  · dsimp only
    rw [hrun]
    exact hplaced'
  · dsimp only at hr ⊢
    rw [hrun] at hr
    rw [hsame r hr]
    exact h.runner r hr

end Sound

namespace System

variable {k k' : System N} {tid : Nat}

/-- Only the wait for a mutex is cancelled with a change of the scheduler's data. -/
lemma cancelWait_sched (hwait : (k.sched.storage tid).wait ≠ .MUTEX)
    (h : k.cancelWait tid = some k') : k'.sched = k.sched := by
  unfold cancelWait at h
  dsimp only at h
  split at h
  · unfold cancelWaitForEvents at h
    split at h
    · obtain ⟨q, -, rfl⟩ := Option.map_eq_some_iff.mp h
      rfl
    · contradiction
  · split at h
    · unfold cancelWaitForBarrier at h
      split at h
      · obtain ⟨b, -, rfl⟩ := Option.map_eq_some_iff.mp h
        rfl
      · contradiction
    · split at h
      · cases h
        obtain ⟨item, waitQueue, heq⟩ := cancelItems_shape tid k.waitQueues k
        unfold cancelIoWaits
        rw [heq]
      · cases h
        rfl

/-- A thread that only waits for a mutex is put into the dead queue at once. -/
lemma cancelWait_mutex (hwait : (k.sched.storage tid).wait = .MUTEX)
    (h : k.cancelWait tid = some k') : ∃ queues,
      k.sched.queues.enqueue .dead tid = some queues ∧ k'.sched.queues = queues := by
  unfold cancelWait at h
  dsimp only at h
  rw [hwait, if_neg (by decide), if_neg (by decide), if_neg (by decide), if_pos rfl] at h
  split at h
  · obtain ⟨queues, henq, rfl⟩ := Option.map_eq_some_iff.mp h
    exact ⟨queues, henq, rfl⟩
  · contradiction

/-- What `scheduler_remove_thread` does to a thread in each state. -/
theorem removeThread_cases (h : k.removeThread tid = some k') :
    k.sched.Live tid ∧ tid ≠ THREAD_TID_IDLE ∧ tid ≠ THREAD_TID_TMRS ∧
      (((k.sched.storage tid).state = .running ∧ ∃ queues,
          k.sched.queues.enqueue .dead tid = some queues ∧
          k' = k.setSched ((k.sched.setThread tid
            { k.sched.storage tid with state := .dead }).setQueues queues)) ∨
        ((k.sched.storage tid).state = .waiting ∧ ∃ k₁, k.cancelWait tid = some k₁ ∧
          k' = k₁.setSched (k₁.sched.setThread tid
            { k₁.sched.storage tid with wait := .none, terminate := true })) ∨
        ((k.sched.storage tid).state = .ready ∧
          k' = k.setSched (k.sched.setThread tid
            { k.sched.storage tid with terminate := true }))) := by
  unfold removeThread at h
  split at h
  · contradiction
  · next hguard =>
      obtain ⟨hlive, hids⟩ := not_or.mp hguard
      obtain ⟨hidle, htmrs⟩ := not_or.mp hids
      refine ⟨Decidable.not_not.mp hlive, hidle, htmrs, ?_⟩
      split at h
      · next hstate =>
          obtain ⟨queues, henq, rfl⟩ := Option.map_eq_some_iff.mp h
          exact .inl ⟨hstate, queues, henq, rfl⟩
      · next hstate =>
          obtain ⟨k₁, hcancel, rfl⟩ := Option.map_eq_some_iff.mp h
          exact .inr (.inl ⟨hstate, k₁, hcancel, rfl⟩)
      · next hstate =>
          cases h
          exact .inr (.inr ⟨hstate, rfl⟩)
      · contradiction

end System

end DiegOS.Kernel
