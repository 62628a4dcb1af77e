import DiegOS.Kernel.DelayQueue
import DiegOS.Kernel.EventWaits
import DiegOS.Kernel.Ownership
import DiegOS.Kernel.WaitItems

/-!
# Who can still be resumed

A thread that waits without a time-out is resumed through a mutex, an event queue, a barrier, a
wait queue or a poll table.  `barrier_done` resumes the waiters of open barriers only, and
`event_done_queue` resumes nobody.

Main results:

- Theorem `Anchored.effect`: what an action has to leave alone for the waiters to stay
  registered.
- Theorem `nobody_orphaned`: in which runs every waiter can still be resumed.
- Theorem `waiter_orphaned`: a barrier is gone, and its waiter still waits.
-/

namespace DiegOS.Kernel

open Lib Function

variable {N : Nat}

/-! ## Registration -/

/-- The poll table of a call. -/
def Call.table : Call → Option Nat
  | .poll table => some table
  | _ => Option.none

/-- A live object knows the thread that waits for it, or the thread is marked to be resumed at
the next update. -/
inductive System.Registered (k : System N) (t : Nat) : Prop
  | mutex (m : Nat) (hwait : (k.sched.storage t).wait.mutex = true) (hm : m ∈ k.mutexes)
      (ht : t ∈ (k.mutex m).waiters)
  | events (q : Nat) (hwait : (k.sched.storage t).wait.event = true) (hq : q ∈ k.evQueues)
      (ht : (k.evQueue q).threadid = t) (hbit : k.evIds t = true)
  | barrier (b : Nat) (hwait : (k.sched.storage t).wait.barrier = true) (hb : b ∈ k.barriers)
      (ht : (k.barrier b).ids t = true)
  | io (w a : Nat) (hwait : (k.sched.storage t).wait.completion = true) (ha : a ∈ k.waitQueue w)
      (ht : k.item a = some (.owner t))
  | poll (table w a : Nat) (hwait : (k.sched.storage t).wait.completion = true)
      (htable : table ∈ k.pollTables) (ht : (k.pollTable table).tid = t)
      (hquiet : (k.pollTable table).signalled = false) (ha : a ∈ k.waitQueue w)
      (hitem : k.item a = some (.poll table))
  | marked (hwait : (k.sched.storage t).wait.completion = true)
      (hbit : k.ioIds t = true ∨ k.pollIds t = true)

/-! ## The condition -/

namespace System

/-- The thread waits for the object that the action ends. -/
def WaitsFor (k : System N) (t : Nat) : Action → Prop
  | .barrierDone b => (k.sched.storage t).wait.barrier = true ∧ (k.barrier b).ids t = true
  | .eventDoneQueue q => q ∈ (k.call t).evQueue
  | _ => False

/-- Nobody waits for the object that the action ends. -/
def Unawaited (k : System N) (a : Action) : Prop :=
  ∀ t < N, k.sched.Waits t → ¬k.WaitsFor t a

/-- Those who wait for the object that the action ends are ready afterwards. -/
def DoneWakes (k : System N) (a : Action) (k' : System N) : Prop :=
  ∀ t, k.sched.Waits t → k.WaitsFor t a → (k'.sched.storage t).state = .ready

/-- Every item is still in its queue when its turn comes, or its queue is empty and its memory
unused. -/
def TakesBack (k : System N) : List (Nat × Nat) → Prop
  | [] => True
  | (a, w) :: l =>
    if a ∈ k.waitQueue w then (k.removeItem w a).TakesBack l
    else k.waitQueue w = [] ∧ k.item a = none ∧ k.TakesBack l

instance : (l : List (Nat × Nat)) → (k : System N) → Decidable (k.TakesBack l)
  | [], _ => isTrue trivial
  | (a, w) :: l, k =>
    haveI := instDecidableTakesBack l (k.removeItem w a)
    haveI := instDecidableTakesBack l k
    inferInstanceAs (Decidable (if a ∈ k.waitQueue w then (k.removeItem w a).TakesBack l
      else k.waitQueue w = [] ∧ k.item a = none ∧ k.TakesBack l))

/-- Nobody is left behind: the end of a barrier finds it open or without waiters, that of an
event queue finds no waiters; a kill takes only items of the killed thread out of the wait
queues, and does not meet a thread that only waits for a mutex; a poll that never gives up has
an item; the items that a poll takes back are its own, and for those that `thread_io_resume` has
taken out the memory is unused and the queue empty. -/
def LeavesNobody (k : System N) : Action → Prop
  | .barrierDone b => (k.barrier b).isOpen = true ∨ k.Unawaited (.barrierDone b)
  | .eventDoneQueue q => k.Unawaited (.eventDoneQueue q)
  | .threadKill tid => Spares False k (.threadKill tid) ∧
      ((k.sched.storage tid).wait = .COMPLETION → ∀ w ∈ k.waitQueues, ∀ a ∈ k.taken w tid,
        k.belongs tid a = true)
  | .poll _ fds timeout _ => timeout < 0 → quiet fds = true → newItems fds ≠ []
  | .finish _ => ∀ r ∈ k.sched.running, ∀ table ∈ (k.call r).table,
      k.TakesBack (k.pollTable table).items ∧
        ∀ p ∈ (k.pollTable table).items, p.1 ∈ k.waitQueue p.2 → k.item p.1 = some (.poll table)
  | _ => True

instance (k : System N) (b : Nat) : Decidable (k.Unawaited (.barrierDone b)) :=
  inferInstanceAs (Decidable (∀ t < N, k.sched.Waits t → ¬(_ ∧ _)))

instance (k : System N) (q : Nat) : Decidable (k.Unawaited (.eventDoneQueue q)) :=
  inferInstanceAs (Decidable (∀ t < N, k.sched.Waits t → ¬q ∈ (k.call t).evQueue))

instance (k : System N) : (a : Action) → Decidable (k.LeavesNobody a)
  | .barrierDone _ => inferInstanceAs (Decidable (_ ∨ _))
  | .eventDoneQueue q => inferInstanceAs (Decidable (k.Unawaited (.eventDoneQueue q)))
  | .threadKill _ => inferInstanceAs (Decidable (_ ∧ (_ → ∀ w ∈ k.waitQueues, _)))
  | .poll _ _ _ _ => inferInstanceAs (Decidable (_ → _ → _))
  | .finish _ => inferInstanceAs (Decidable (∀ r ∈ k.sched.running, _))
  | .kernelRun | .threadCreate _ _ | .threadSuspend | .threadMaySuspend | .threadDelay _
  | .threadTerminate | .createMutex _ | .lockMutex _ _ | .unlockMutex _ | .destroyMutex _
  | .eventInitQueue _ | .eventWatchQueue _ | .eventPut _ _ | .eventGet _ | .waitForEvents _ _
  | .barrierCreate _ _ | .barrierOpen _ | .barrierClose _ | .waitForBarrier _ | .ioWaitInit _
  | .ioWait _ _ _ | .ioResume _ | .tick _ => isTrue trivial

end System

/-! ## The invariant -/

/-- The flags that a thread waits with in a call. -/
def Call.flags : Call → WaitFlags
  | .none => .none
  | .lock _ _ => .MUTEX
  | .events _ _ => .EVENT
  | .barrier _ => .BARRIER
  | .io _ _ | .poll _ => .COMPLETION

namespace System

/-- A poll table that was not signalled yet, with items in their queues. -/
structure Polls (k : System N) (table t : Nat) : Prop where
  listed : table ∈ k.pollTables
  tid : (k.pollTable table).tid = t
  quiet : (k.pollTable table).signalled = false
  nonempty : (k.pollTable table).items ≠ []
  linked : k.TableLinked table

/-- The object of the call knows the thread, or the thread is marked to be resumed. -/
def Anchors (k : System N) (t : Nat) : Call → Prop
  | .none => False
  | .lock m _ => m ∈ k.mutexes ∧ t ∈ (k.mutex m).waiters
  | .events q _ => q ∈ k.evQueues ∧ (k.evQueue q).threadid = t ∧ k.evIds t = true
  | .barrier b => b ∈ k.barriers ∧ (k.barrier b).ids t = true
  | .io w _ => k.ioIds t = true ∨ ∃ a ∈ k.waitQueue w, k.item a = some (.owner t)
  | .poll table => k.pollIds t = true ∨ k.Polls table t

lemma Polls.kept {k k' : System N} {table t : Nat} (h : k.Polls table t)
    (hlisted : table ∈ k'.pollTables) (htable : k'.pollTable table = k.pollTable table)
    (hstays : Stays (.poll table) k k') : k'.Polls table t := by
  refine ⟨hlisted, ?_, ?_, ?_, fun p hp => ?_⟩
  · rw [htable]
    exact h.tid
  · rw [htable]
    exact h.quiet
  · rw [htable]
    exact h.nonempty
  · rw [htable] at hp
    exact hstays p.2 p.1 (h.linked p hp).1 (h.linked p hp).2

end System

/-- Who waits without a time-out is known to the object of its call. -/
structure Anchored (k : System N) : Prop where
  valid : k.ValidMutexes
  stocked : k.Stocked
  tables : ∀ t table, k.call t = .poll table →
    table ∈ k.pollTables ∧ (k.pollTable table).tid = t
  waiters : ∀ t, k.sched.Waits t → (k.sched.storage t).wait.timeout = false →
    (k.sched.storage t).wait = (k.call t).flags ∧ k.Anchors t (k.call t)

/-! ## Actions of other threads -/

namespace Effect

variable {strict : Prop} {k k' : System N} {a : Action} {outcome : Outcome} {t : Nat}

variable (h : Effect k a k' outcome)
include h

/-- Only the running thread begins to wait. -/
lemma waits_before (hmay : a ≠ .threadMaySuspend)
    (hother : k.sched.running ≠ some t) (hwaits : k'.sched.Waits t) :
    k'.sched.storage t = k.sched.storage t := by
  have hblocked : ∀ {r : Nat} {u : Thread}, k.sched.running = some r →
      update k.sched.storage r u t = k.sched.storage t := by
    intro r u hrun
    apply update_of_ne
    rintro rfl
    exact hother hrun
  have hended : ∀ {s : Sched N} {tid : Nat} {u : Thread},
      (s.setThread tid u).Waits t → (u.state ≠ .waiting ∨ u.terminate = true) →
      (s.setThread tid u).storage t = s.storage t := by
    intro s tid u hset hu
    apply update_of_ne
    rintro rfl
    have hrecord : (s.setThread t u).storage t = u := update_self ..
    rcases hu with hstate | hterm
    · exact hstate (hrecord ▸ hset.state)
    · have hlasts := hset.terminate
      rw [hrecord, hterm] at hlasts
      contradiction
  cases h with
  | stayed => exact absurd rfl hmay
  | gaveWay => exact absurd rfl hmay
  | @created name prio tid queues =>
    have hset : (k.sched.setThread tid (.fresh name prio tid)).Waits t :=
      ⟨hwaits.live, hwaits.state, hwaits.terminate⟩
    exact hended hset (.inl (by simp [Thread.fresh]))
  | @killed tid k₁ hself hlive hidle hstate hcancel =>
    have hsame := hended hwaits (.inr rfl)
    by_cases ht : t = tid
    · subst ht
      have hterm := hwaits.terminate
      simp at hterm
    · exact hsame.trans ((System.cancelWait_others hcancel).2 t ht)
  | killedReady => exact hended hwaits (.inr rfl)
  | @killedLost tid queues =>
    have hset : (k.sched.setThread tid _).Waits t :=
      ⟨hwaits.live, hwaits.state, hwaits.terminate⟩
    exact hended hset (.inl (by simp))
  | unlocked => exact Sched.wakeAll_waiting hwaits.state
  | barrierDone =>
    obtain ⟨T, bar, heq, -⟩ := System.resumeOnBarriers_eq k.barriers k
    rw [heq] at hwaits ⊢
    exact Sched.wakeAll_waiting hwaits.state
  | ioResumed hresume => rw [(System.resumeItems_same hresume).sched]
  | pollFailed hfirst hclean =>
    rw [((System.pollFirst_same hfirst).trans (System.cleanup_same hclean)).sched]
  | pollWaits hrun hidle hfirst =>
    have hsame := (System.pollFirst_same hfirst).sched
    unfold System.blocked
    dsimp only
    rw [hsame]
    exact hblocked hrun
  | polled hfirst hclean =>
    rw [((System.pollFirst_same hfirst).trans (System.cleanup_same hclean)).sched]
  | pollFinished hrun hcall hclean => rw [(System.cleanup_same hclean).sched]
  | suspended hrun | delayed hrun | terminated hrun | lockWaits _ hrun | eventWaits _ hrun
  | barrierWaits _ hrun | ioWaits hrun => exact hblocked hrun
  | _ => rfl

/-- The mutexes stay rings. -/
lemma validMutexes (hsound : Sound False k)
    (hspares : Spares False k a) (hvalid : k.ValidMutexes) : k'.ValidMutexes := by
  cases ha : a.onMutexes with
  | false =>
    obtain ⟨hlist, htable⟩ := h.framed.mutexes ha
    unfold System.ValidMutexes
    rw [hlist, htable]
    exact hvalid
  | true =>
    cases h with
    | unchanged | killedReady | killedLost => exact hvalid
    | @mutexCreated m hnew =>
      intro i hi
      change (update k.mutex m (.init N) i).Valid N
      by_cases him : i = m
      · rw [him, update_self]
        obtain ⟨L, hplaced⟩ := hsound.placed
        exact Mutex.init_valid hplaced.live_idle.lt
      · rw [update_of_ne him]
        exact hvalid i ((List.mem_cons.mp hi).resolve_left him)
    | locked hm =>
      exact hvalid.update ⟨(hvalid _ hm).ring, (hvalid _ hm).size⟩
    | lockWaits hm hrun hr hheld hlock =>
      exact hvalid.update (Mutex.lockMutex_true (hvalid _ hm)
        (Nat.ne_of_lt (hsound.live hrun).1) hheld hlock).1
    | unlocked hm hunlock =>
      exact hvalid.update (Mutex.unlockMutex_true (hvalid _ hm) hunlock).2.2.1
    | mutexDestroyed => exact fun i hi => hvalid i (List.mem_of_mem_erase hi)
    | @killed tid k₁ hself hlive hidle hstate hcancel =>
      rcases System.cancelWait_cases hcancel with ⟨-, q, -, rfl⟩ | ⟨-, b, -, rfl⟩ |
        ⟨-, rfl⟩ | ⟨hwait, -⟩ | ⟨-, rfl⟩
      · exact hvalid
      · exact hvalid
      · have hsame := System.cancelIoWaits_same k tid
        unfold System.ValidMutexes
        dsimp only
        rw [hsame.mutexes, hsame.mutex]
        exact hvalid
      · exact absurd hwait (hspares hlive hstate).1
      · exact hvalid
    | _ => simp [Action.onMutexes] at ha

/-- A waiter of a mutex that goes on waiting stays in the buffer. -/
lemma keeps_lock (hsound : Sound False k)
    (hspares : Spares False k a) (hvalid : k.ValidMutexes) {m : Nat} (hm : m ∈ k.mutexes)
    (hin : t ∈ (k.mutex m).waiters) (hwaits : k.sched.Waits t)
    (hwait : (k.sched.storage t).wait = .MUTEX) (hstill : k'.sched.Waits t) :
    m ∈ k'.mutexes ∧ t ∈ (k'.mutex m).waiters := by
  have hset : ∀ {m₁ : Nat} {m' : Mutex}, (m = m₁ → t ∈ m'.waiters) →
      t ∈ (update k.mutex m₁ m' m).waiters := by
    intro m₁ m' hsame
    by_cases hmm : m = m₁
    · rw [hmm, update_self]
      exact hsame hmm
    · rw [update_of_ne hmm]
      exact hin
  cases ha : a.onMutexes with
  | false =>
    obtain ⟨hlist, htable⟩ := h.framed.mutexes ha
    rw [hlist, htable]
    exact ⟨hm, hin⟩
  | true =>
    cases h with
    | unchanged | killedReady | killedLost => exact ⟨hm, hin⟩
    | mutexCreated hnew =>
      refine ⟨.tail _ hm, hset ?_⟩
      rintro rfl
      exact absurd hm hnew
    | locked =>
      refine ⟨hm, hset ?_⟩
      rintro rfl
      exact hin
    | lockWaits hm₁ hrun hr hheld hlock =>
      refine ⟨hm, hset ?_⟩
      rintro rfl
      rw [(Mutex.lockMutex_true (hvalid m hm) (Nat.ne_of_lt (hsound.live hrun).1) hheld
        hlock).2.2]
      exact List.mem_append_left _ hin
    | @unlocked m₁ m' hm₁ hunlock =>
      refine ⟨hm, hset ?_⟩
      rintro rfl
      obtain ⟨-, -, -, hnext, hrest, -⟩ := Mutex.unlockMutex_true (hvalid m hm) hunlock
      obtain ⟨u, l, hcons⟩ := List.exists_cons_of_ne_nil (List.ne_nil_of_mem hin)
      rw [hcons] at hin hnext hrest
      rcases List.mem_cons.mp hin with rfl | hin
      · -- the oldest waiter is resumed
        have hres : k.sched.Resumable .MUTEX t :=
          ⟨hwaits.live, hwaits.state, WaitFlags.inter_mutex.mpr (by rw [hwait]; rfl)⟩
        have hready : ((k.sched.wakeAll .MUTEX fun i => i == m'.lockerTid).storage t).state ≠
            .waiting := by
          rw [Sched.wakeAll_storage_of (by simp [hnext]) hres]
          simp [Thread.resumed]
        exact absurd hstill.state hready
      · rw [hrest]
        exact hin
    | mutexDestroyed hm₁ hfree hempty =>
      refine ⟨(List.mem_erase_of_ne ?_).mpr hm, hin⟩
      rintro rfl
      have hnil := ((hvalid m hm).ids_eq_nil).mpr hempty
      rw [Mutex.waiters, hnil] at hin
      contradiction
    | @killed tid k₁ hself hlive hidle hstate hcancel =>
      rcases System.cancelWait_cases hcancel with ⟨-, q, -, rfl⟩ | ⟨-, b, -, rfl⟩ |
        ⟨-, rfl⟩ | ⟨hmutex, -⟩ | ⟨-, rfl⟩
      · exact ⟨hm, hin⟩
      · exact ⟨hm, hin⟩
      · have hsame := System.cancelIoWaits_same k tid
        rw [hsame.mutexes, hsame.mutex]
        exact ⟨hm, hin⟩
      · exact absurd hmutex (hspares hlive hstate).1
      · exact ⟨hm, hin⟩
    | _ => simp [Action.onMutexes] at ha

/-- A thread that waits for events and goes on waiting stays the listener. -/
lemma keeps_queue
    (hkeep : k.LeavesNobody a) (hmay : a ≠ .threadMaySuspend) {q msecs : Nat}
    (hq : q ∈ k.evQueues) (hwatch : (k.evQueue q).threadid = t) (hbit : k.evIds t = true)
    (hwaits : k.sched.Waits t) (hcall : k.call t = .events q msecs)
    (hstill : k'.sched.Waits t) :
    q ∈ k'.evQueues ∧ (k'.evQueue q).threadid = t ∧ k'.evIds t = true := by
  have hvalid : t ≠ THREAD_TID_INVALID := Nat.ne_of_lt hwaits.live.1
  have hdone : a ≠ .eventDoneQueue q := by
    rintro rfl
    apply hkeep t hwaits.live.lt hwaits
    rw [System.WaitsFor, hcall]
    rfl
  by_cases hkill : a = .threadKill t
  · subst hkill
    cases h with
    | unchanged | killedLost => exact ⟨hq, hwatch, hbit⟩
    | killed | killedReady =>
      have hterm := hstill.terminate
      simp at hterm
  · obtain ⟨hq', hwatch', -⟩ := h.queue_kept hdone (by rw [hwatch]; exact hkill) hq
    exact ⟨hq', (hwatch' (by rw [hwatch]; exact hvalid)).trans hwatch, h.evIds_kept hmay hbit⟩

/-- A thread that waits for a barrier and goes on waiting stays in its set. -/
lemma keeps_barrier (hkeep : k.LeavesNobody a)
    (hmay : a ≠ .threadMaySuspend) {b : Nat} (hb : b ∈ k.barriers)
    (hin : (k.barrier b).ids t = true) (hwaits : k.sched.Waits t)
    (hwait : (k.sched.storage t).wait = .BARRIER)
    (hstill : k'.sched.Waits t) : b ∈ k'.barriers ∧ (k'.barrier b).ids t = true := by
  have hset : ∀ {b₁ : Nat} {bar : Barrier}, (b = b₁ → bar.ids t = true) →
      (update k.barrier b₁ bar b).ids t = true := by
    intro b₁ bar hsame
    by_cases hbb : b = b₁
    · rw [hbb, update_self]
      exact hsame hbb
    · rw [update_of_ne hbb]
      exact hin
  cases ha : a.onBarriers with
  | false =>
    obtain ⟨hlist, htable⟩ := h.framed.barriers ha
    rw [hlist, htable]
    exact ⟨hb, hin⟩
  | true =>
    cases h with
    | unchanged | killedReady | killedLost => exact ⟨hb, hin⟩
    | stayed | gaveWay => exact absurd rfl hmay
    | barrierCreated hnew =>
      refine ⟨List.mem_append_left _ hb, hset ?_⟩
      rintro rfl
      exact absurd hb hnew
    | @barrierDone b₁ hb₁ =>
      obtain ⟨T, bar, heq, hids, hT⟩ := System.resumeOnBarriers_eq k.barriers k
      rw [heq] at hstill ⊢
      have hclosed : (k.barrier b).isOpen = false := by
        rw [Bool.eq_false_iff]
        intro hopen
        have hres : k.sched.Resumable .BARRIER t :=
          ⟨hwaits.live, hwaits.state, WaitFlags.inter_barrier.mpr (by rw [hwait]; rfl)⟩
        have hready : ((k.sched.wakeAll .BARRIER T).storage t).state ≠ .waiting := by
          rw [Sched.wakeAll_storage_of ((hT t).mpr ⟨hwaits.live.lt, b, hb, hopen, hin⟩) hres]
          simp [Thread.resumed]
        exact hready hstill.state
      refine ⟨(List.mem_erase_of_ne ?_).mpr hb, ?_⟩
      · rintro rfl
        rcases hkeep with hopen | hnobody
        · rw [hclosed] at hopen
          contradiction
        · exact hnobody t hwaits.live.lt hwaits ⟨by rw [hwait]; rfl, hin⟩
      · dsimp only
        rw [hids, hin, hclosed]
        simp
    | barrierOpened | barrierClosed =>
      refine ⟨hb, hset ?_⟩
      rintro rfl
      exact hin
    | @barrierWaits r =>
      refine ⟨hb, hset ?_⟩
      rintro rfl
      change update (k.barrier b).ids r true t = true
      rw [update_apply]
      split
      · rfl
      · exact hin
    | @killed tid k₁ hself hlive hidle hstate hcancel =>
      have htid : t ≠ tid := by
        rintro rfl
        have hterm := hstill.terminate
        simp at hterm
      rcases System.cancelWait_cases hcancel with ⟨-, q, -, rfl⟩ | ⟨-, b₁, -, rfl⟩ |
        ⟨-, rfl⟩ | ⟨-, mutex, queues, -, -, rfl⟩ | ⟨-, rfl⟩
      · exact ⟨hb, hin⟩
      · refine ⟨hb, hset ?_⟩
        rintro rfl
        exact (update_of_ne htid _ _).trans hin
      · have hsame := System.cancelIoWaits_same k tid
        rw [hsame.barriers, hsame.barrier]
        exact ⟨hb, hin⟩
      · exact ⟨hb, hin⟩
      · exact ⟨hb, hin⟩
    | _ => simp [Action.onBarriers] at ha

end Effect

/-- What an I/O wait or a poll of the thread is about is left alone. -/
structure System.LeavesItems (t : Nat) (k k' : System N) : Prop where
  owner : System.Stays (.owner t) k k'
  io : k.ioIds t = true → k'.ioIds t = true
  poll : k.pollIds t = true → k'.pollIds t = true
  tables : ∀ table, k.Polls table t → System.Stays (.poll table) k k' ∧
    table ∈ k'.pollTables ∧ k'.pollTable table = k.pollTable table

namespace System

variable {k k' : System N} {t table : Nat}

lemma LeavesItems.of_eq (hqueue : k'.waitQueue = k.waitQueue) (hitem : k'.item = k.item)
    (hio : k'.ioIds = k.ioIds) (hpoll : k'.pollIds = k.pollIds)
    (hlist : k'.pollTables = k.pollTables) (htable : k'.pollTable = k.pollTable) :
    LeavesItems t k k' where
  owner := .of_eq hqueue hitem
  io := by rw [hio]; exact id
  poll := by rw [hpoll]; exact id
  tables := by
    intro table hpolls
    rw [hlist, htable]
    exact ⟨.of_eq hqueue hitem, hpolls.listed, rfl⟩

/-- The end of a poll. -/
lemma cleanup_leaves (h : k.Stocked)
    (hown : ∀ p ∈ (k.pollTable table).items, p.1 ∈ k.waitQueue p.2 →
      k.item p.1 = some (.poll table)) (heq : k.cleanup table = some k') :
    ∀ t, (k.pollTable table).tid ≠ t → LeavesItems t k k' := by
  obtain ⟨k₁, hclean, rfl⟩ := Option.map_eq_some_iff.mp heq
  have hstays := cleanupItems_stays table _ h hown hclean
  obtain ⟨item, waitQueue, rfl⟩ := cleanupItems_shape _ hclean
  refine fun t ht => ⟨?_, id, id, fun table' hpolls => ?_⟩
  · exact (hstays _ (by simp)).trans (.of_eq rfl rfl)
  · have hne : table' ≠ table := by
      rintro rfl
      exact ht hpolls.tid
    refine ⟨(hstays _ (by simpa using hne)).trans (.of_eq rfl rfl), ?_, rfl⟩
    exact (List.mem_erase_of_ne hne).mpr hpolls.listed

/-- A new table, and what the drivers add to it. -/
lemma pollFirst_leaves {fds : List (Option PollAnswer)} {ok : Bool} (h : k.Stocked)
    (hnew : table ∉ k.pollTables) (hnodup : (newItems fds).Nodup)
    (hfree : ∀ a ∈ newItems fds, k.item a = none)
    (heq : pollFirst table fds (k.withTable table) = (k', ok)) :
    (∃ new, Polled table new (k.withTable table) k' ∧ (ok = true → new = newItems fds ∧
      ((k'.pollTable table).signalled = false → quiet fds = true))) ∧
    k'.TableLinked table ∧ (k'.pollTable table).tid = k.sched.runningTid ∧
    k'.pollTables = table :: k.pollTables ∧ ∀ t, LeavesItems t k k' := by
  have hlinked : (k.withTable table).TableLinked table := by
    intro p hp
    simp [withTable] at hp
  have hwith : (k.withTable table).Stocked := h.congr rfl rfl
  obtain ⟨new, hpolled, hok⟩ := pollFirst_polled fds hwith hnodup hfree heq
  obtain ⟨item, waitQueue, pollTable, hshape⟩ := pollFirst_shape table fds (k.withTable table)
  rw [heq] at hshape
  dsimp only at hshape
  refine ⟨⟨new, hpolled, hok⟩, hpolled.linked hlinked, ?_, ?_, fun t => ⟨?_, ?_, ?_, ?_⟩⟩
  · rw [hpolled.tid]
    simp [withTable]
  · rw [hshape]
    rfl
  · exact (Stays.of_eq rfl rfl).trans (hpolled.stays _)
  · rw [hshape]
    exact id
  · rw [hshape]
    exact id
  · intro table' hpolls
    have hne : table' ≠ table := by
      rintro rfl
      exact hnew hpolls.listed
    refine ⟨(Stays.of_eq rfl rfl).trans (hpolled.stays _), ?_, ?_⟩
    · rw [hshape]
      exact .tail _ hpolls.listed
    · rw [hpolled.others table' hne]
      exact update_of_ne hne _ _

lemma LeavesItems.trans {k'' : System N} (h : LeavesItems t k k')
    (h' : LeavesItems t k' k'') : LeavesItems t k k'' where
  owner := h.owner.trans h'.owner
  io := fun hbit => h'.io (h.io hbit)
  poll := fun hbit => h'.poll (h.poll hbit)
  tables := by
    intro table' hpolls
    obtain ⟨hstays, hlisted, htable⟩ := h.tables table' hpolls
    obtain ⟨hstays', hlisted', htable'⟩ := h'.tables table' (hpolls.kept hlisted htable hstays)
    exact ⟨hstays.trans hstays', hlisted', htable'.trans htable⟩

end System

/-- The items of a thread that does not run are left alone, unless a queue is resumed. -/
lemma Effect.items {k k' : System N} {a : Action} {outcome : Outcome}
    (h : Effect k a k' outcome) (hsound : Sound False k) (hanchored : Anchored k)
    (hallowed : k.Allowed a) (hkeep : k.LeavesNobody a) (hmay : a ≠ .threadMaySuspend) :
    ∀ t, k.sched.running ≠ some t → k'.sched.Waits t → System.LeavesItems t k k' ∨
      ∃ w, System.Roused (k.waitQueue w) k k' ∧ k'.pollTables = k.pollTables := by
  have hstocked := hanchored.stocked
  have hself : k.Calling → ∀ t, k.sched.running ≠ some t → k.sched.runningTid ≠ t := by
    rintro ⟨r, hrun, -⟩ t hother rfl
    rw [hsound.runningTid hrun] at hother
    exact hother hrun
  intro t hother hstill
  cases h with
  | stayed | gaveWay => exact absurd rfl hmay
  | barrierDone =>
    obtain ⟨_, _, heq, -⟩ := System.resumeOnBarriers_eq k.barriers k
    rw [heq]
    exact .inl (.of_eq rfl rfl rfl rfl rfl rfl)
  | @ioWaits r w a msecs queues hrun hr hnew =>
    refine .inl ⟨?_, id, id, ?_⟩
    · exact (System.Stays.addItem hnew).trans (.of_eq rfl rfl)
    · intro table hpolls
      exact ⟨(System.Stays.addItem hnew).trans (.of_eq rfl rfl), hpolls.listed, rfl⟩
  | @ioResumed w _ hresume =>
    have hroused := System.resumeItems_roused _ hstocked (hstocked.nodup w)
      (fun _ ha => ha) hresume
    obtain ⟨_, _, _, _, _, rfl⟩ := System.resumeItems_shape _ hresume
    exact .inr ⟨w, hroused, rfl⟩
  | @killed tid k₁ hself hlive hidle hstate hcancel =>
    rcases System.cancelWait_cases hcancel with ⟨-, q, -, rfl⟩ | ⟨-, b₁, -, rfl⟩ |
      ⟨hwait, rfl⟩ | ⟨-, mutex, queues, -, -, rfl⟩ | ⟨-, rfl⟩
    · exact .inl (.of_eq rfl rfl rfl rfl rfl rfl)
    · exact .inl (.of_eq rfl rfl rfl rfl rfl rfl)
    · have hstays : ∀ i, (∀ a, k.item a = some i → k.belongs tid a = false) →
          System.Stays i k (k.cancelIoWaits tid) :=
        fun i => System.cancelIoWaits_stays hstocked (hkeep.2 hwait)
      have htid : t ≠ tid := by
        rintro rfl
        have hterm := hstill.terminate
        simp at hterm
      have hshape : (k.cancelIoWaits tid).pollIds = k.pollIds ∧
          (k.cancelIoWaits tid).pollTables = k.pollTables ∧
          (k.cancelIoWaits tid).pollTable = k.pollTable ∧
          (k.cancelIoWaits tid).ioIds = update k.ioIds tid false := by
        obtain ⟨_, _, heq⟩ := System.cancelItems_shape tid k.waitQueues k
        unfold System.cancelIoWaits
        rw [heq]
        exact ⟨rfl, rfl, rfl, rfl⟩
      obtain ⟨hpoll, hlist, htable, hio⟩ := hshape
      refine .inl ⟨(hstays _ ?_).trans (.of_eq rfl rfl), fun hbit => ?_, fun hbit => ?_, ?_⟩
      · intro b hitem
        simpa [System.belongs, hitem] using htid
      · dsimp only
        rw [hio, update_of_ne htid]
        exact hbit
      · dsimp only
        rw [hpoll]
        exact hbit
      · intro table hpolls
        refine ⟨(hstays _ ?_).trans (.of_eq rfl rfl), ?_, ?_⟩
        · intro b hitem
          simpa [System.belongs, hitem, hpolls.tid] using htid
        · dsimp only
          rw [hlist]
          exact hpolls.listed
        · dsimp only
          rw [htable]
    · exact .inl (.of_eq rfl rfl rfl rfl rfl rfl)
    · exact .inl (.of_eq rfl rfl rfl rfl rfl rfl)
  | pollFailed hfirst hclean | polled hfirst hclean =>
    obtain ⟨hcalling, hnew, hnodup, hfree⟩ := hallowed
    obtain ⟨⟨new, hpolled, -⟩, hlinked, htid, -, hleaves⟩ :=
      System.pollFirst_leaves hstocked hnew hnodup hfree hfirst
    have hclean' := System.cleanup_leaves hpolled.stocked
      (fun p hp _ => (hlinked p hp).2) hclean
    refine .inl ((hleaves t).trans (hclean' t ?_))
    rw [htid]
    exact hself hcalling t hother
  | pollWaits hrun hr hfirst =>
    obtain ⟨-, hnew, hnodup, hfree⟩ := hallowed
    obtain ⟨⟨new, hpolled, -⟩, -, -, -, hleaves⟩ :=
      System.pollFirst_leaves hstocked hnew hnodup hfree hfirst
    refine .inl ((hleaves t).trans ?_)
    exact .of_eq rfl rfl rfl rfl rfl rfl
  | @pollFinished r table _ _ _ hrun hcall hclean =>
    have hown := (hkeep r hrun table (by rw [hcall]; rfl)).2
    have hclean' := System.cleanup_leaves
      (k := { k with call := update k.call r .none }) (hstocked.congr rfl rfl) hown
      hclean
    refine .inl (.trans ?_ (hclean' t ?_))
    · exact .of_eq rfl rfl rfl rfl rfl rfl
    · rintro rfl
      rw [(hanchored.tables r table hcall).2] at hother
      exact hother hrun
  | _ => exact .inl (.of_eq rfl rfl rfl rfl rfl rfl)

/-! ## A wait begins -/

/-- Without a time-out the record has the flags of the call and no others. -/
lemma Placed.waitingRecord_wait {s : Sched N} {r msecs : Nat} {flags : WaitFlags}
    (hflags : flags.timeout = false)
    (h : (Placed.waitingRecord s r flags msecs).wait.timeout = false) :
    (Placed.waitingRecord s r flags msecs).wait = flags ∧ msecs = 0 := by
  have hmsecs : msecs = 0 := by simpa [Placed.waitingRecord] using h
  subst hmsecs
  refine ⟨?_, rfl⟩
  cases flags
  subst hflags
  rfl

/-- The running thread that begins to wait is known to the object of its call. -/
lemma Effect.begins {k k' : System N} {a : Action} {outcome : Outcome} {t : Nat}
    (h : Effect k a k' outcome) (hsound : Sound False k) (hanchored : Anchored k)
    (hallowed : k.Allowed a) (hkeep : k.LeavesNobody a) (hmay : a ≠ .threadMaySuspend)
    (hrun : k.sched.running = some t) (hstill : k'.sched.Waits t)
    (huntimed : (k'.sched.storage t).wait.timeout = false) :
    (k'.sched.storage t).wait = (k'.call t).flags ∧ k'.Anchors t (k'.call t) := by
  have hstate := hstill.state
  have hsame : k'.sched.storage t = k.sched.storage t →
      (k'.sched.storage t).wait = (k'.call t).flags ∧ k'.Anchors t (k'.call t) := by
    intro heq
    rw [heq, (hsound.runner t hrun).1] at hstate
    contradiction
  have hblocked : ∀ {k₁ : System N} {u : Thread} {queues : LinkedQueues Place Nat} {c : Call},
      (k₁.blocked t u queues c).sched.storage t = u ∧ (k₁.blocked t u queues c).call t = c :=
    ⟨update_self .., update_self ..⟩
  have hme : ∀ {r : Nat}, k.sched.running = some r → t = r := by
    intro r hr
    exact Option.some.inj (hrun.symm.trans hr)
  cases h with
  | stayed | gaveWay => exact absurd rfl hmay
  | created hlt hdead =>
    apply hsame
    apply update_of_ne
    rintro rfl
    exact hdead (hsound.live hrun)
  | suspended hr | terminated hr =>
    obtain rfl := hme hr
    rw [hblocked.1] at hstate
    contradiction
  | delayed hr =>
    obtain rfl := hme hr
    rw [hblocked.1] at huntimed
    contradiction
  | @killed tid k₁ hother hlive hidle hwaiting hcancel =>
    have ht : t ≠ tid := by
      rintro rfl
      exact hother hrun
    exact hsame ((update_of_ne ht _ _).trans
      ((System.cancelWait_others hcancel).2 t ht))
  | killedReady hother | killedLost hother =>
    apply hsame
    apply update_of_ne
    rintro rfl
    exact hother hrun
  | @lockWaits r m msecs m' queues hm hr hidle hheld hlock =>
    obtain rfl := hme hr
    rw [hblocked.1] at huntimed ⊢
    rw [hblocked.2]
    obtain ⟨-, -, hwaiters⟩ := Mutex.lockMutex_true (hanchored.valid m hm)
      (Nat.ne_of_lt (hsound.live hrun).1) hheld hlock
    refine ⟨(Placed.waitingRecord_wait rfl huntimed).1, hm, ?_⟩
    change t ∈ (update k.mutex m m' m).waiters
    rw [update_self, hwaiters]
    exact List.mem_append_right _ (List.mem_singleton_self t)
  | unlocked =>
    apply hsame
    apply Sched.wakeAll_of_ne_waiting
    rw [(hsound.runner t hrun).1]
    simp
  | eventWaits hq hr hidle hwatch hempty =>
    obtain rfl := hme hr
    rw [hblocked.1] at huntimed ⊢
    rw [hblocked.2]
    exact ⟨(Placed.waitingRecord_wait rfl huntimed).1, hq, hwatch, update_self ..⟩
  | barrierDone =>
    obtain ⟨T, bar, heq, -⟩ := System.resumeOnBarriers_eq k.barriers k
    apply hsame
    rw [heq]
    apply Sched.wakeAll_of_ne_waiting
    rw [(hsound.runner t hrun).1]
    simp
  | @barrierWaits r b queues hb hr =>
    obtain rfl := hme hr
    rw [hblocked.1] at huntimed ⊢
    rw [hblocked.2]
    refine ⟨(Placed.waitingRecord_wait rfl huntimed).1, hb, ?_⟩
    change (update k.barrier b _ b).ids t = true
    rw [update_self]
    exact update_self ..
  | @ioWaits r w a msecs queues hr hidle hnew =>
    obtain rfl := hme hr
    rw [hblocked.1] at huntimed ⊢
    rw [hblocked.2]
    refine ⟨(Placed.waitingRecord_wait rfl huntimed).1, .inr ⟨a, ?_, ?_⟩⟩
    · change a ∈ (k.addItem w a (.owner t)).waitQueue w
      exact System.mem_addItem.mpr (.inr ⟨rfl, rfl⟩)
    · exact update_self ..
  | ioResumed hresume => exact hsame (by rw [(System.resumeItems_same hresume).sched])
  | pollFailed hfirst hclean | polled hfirst hclean =>
    apply hsame
    rw [((System.pollFirst_same hfirst).trans (System.cleanup_same hclean)).sched]
  | @pollWaits r table fds timeout again k₁ queues hr hidle hfirst hquiet htimeout =>
    obtain rfl := hme hr
    rw [hblocked.1] at huntimed ⊢
    rw [hblocked.2]
    obtain ⟨hwait, hmsecs⟩ := Placed.waitingRecord_wait rfl huntimed
    have hforever : timeout < 0 := by
      by_contra hnot
      rw [if_neg hnot] at hmsecs
      omega
    obtain ⟨-, hnew, hnodup, hfree⟩ := hallowed
    obtain ⟨⟨new, hpolled, hok⟩, hlinked, htid, hlist, -⟩ :=
      System.pollFirst_leaves hanchored.stocked hnew hnodup hfree hfirst
    obtain ⟨rfl, hfds⟩ := hok rfl
    have hsome := hkeep hforever (hfds hquiet)
    refine ⟨hwait, .inr ⟨?_, ?_, hquiet, ?_, hlinked⟩⟩
    · change table ∈ k₁.pollTables
      rw [hlist]
      exact .head _
    · exact htid.trans (hsound.runningTid hrun)
    · intro hnil
      have hfirsts := hpolled.firsts
      rw [show (k₁.pollTable table).items = [] from hnil] at hfirsts
      simp [System.withTable] at hfirsts
      exact hsome hfirsts
  | pollFinished hr hcall hclean => exact hsame (by rw [(System.cleanup_same hclean).sched])
  | _ => exact hsame rfl

/-- The table of a poll stays until the poll ends. -/
lemma Effect.tables {k k' : System N} {a : Action} {outcome : Outcome} {t table : Nat}
    (h : Effect k a k' outcome) (hsound : Sound False k) (hanchored : Anchored k)
    (hallowed : k.Allowed a) (hmay : a ≠ .threadMaySuspend) (hcall : k'.call t = .poll table) :
    table ∈ k'.pollTables ∧ (k'.pollTable table).tid = t := by
  have hold : k.call t = .poll table → k'.pollTables = k.pollTables →
      k'.pollTable = k.pollTable → table ∈ k'.pollTables ∧ (k'.pollTable table).tid = t := by
    intro heq hlist htable
    rw [hlist, htable]
    exact hanchored.tables t table heq
  have hcalls := h.call_cases (t := t) hmay
  have hbefore : a.onItems = false → k.call t = .poll table := by
    intro ha
    rcases hcalls with heq | heq | ⟨-, heq⟩
    · rw [← heq, hcall]
    · rw [heq] at hcall
      contradiction
    · rw [heq] at hcall
      cases a <;> simp [Action.call] at hcall
      simp [Action.onItems] at ha
  have hpolled : ∀ {new : Nat} {fds : List (Option PollAnswer)} {ok : Bool} {k₁ : System N},
      new ∉ k.pollTables → System.pollFirst new fds (k.withTable new) = (k₁, ok) →
      (System.newItems fds).Nodup → (∀ a ∈ System.newItems fds, k.item a = none) →
      k.call t = .poll table → table ≠ new ∧ table ∈ k₁.pollTables ∧
        (k₁.pollTable table).tid = t := by
    intro new fds ok k₁ hnew hfirst hnodup hfree heq
    obtain ⟨hlisted, htid⟩ := hanchored.tables t table heq
    have hne : table ≠ new := by
      rintro rfl
      exact hnew hlisted
    obtain ⟨⟨_, hadded, -⟩, -, -, hlist, -⟩ :=
      System.pollFirst_leaves hanchored.stocked hnew hnodup hfree hfirst
    refine ⟨hne, ?_, ?_⟩
    · rw [hlist]
      exact .tail _ hlisted
    · rw [hadded.others table hne, ← htid]
      exact congrArg PollTable.tid (update_of_ne hne _ _)
  cases ha : a.onItems with
  | false =>
    obtain ⟨-, -, -, hlist, htable⟩ := h.framed.items ha
    exact hold (hbefore ha) hlist htable
  | true =>
    cases h with
    | unchanged | waitQueueAdded | killedReady | killedLost => exact hold hcall rfl rfl
    | ioWaits hrun =>
      refine hold ?_ rfl rfl
      rcases hcalls with heq | heq | ⟨-, heq⟩
      · exact heq ▸ hcall
      · rw [heq] at hcall
        contradiction
      · rw [heq] at hcall
        contradiction
    | @ioResumed w _ hresume =>
      have hroused := System.resumeItems_roused _ hanchored.stocked
        (hanchored.stocked.nodup w) (fun _ ha => ha) hresume
      rw [(System.resumeItems_same hresume).call] at hcall
      obtain ⟨hlisted, htid⟩ := hanchored.tables t table hcall
      obtain ⟨_, _, _, _, _, rfl⟩ := System.resumeItems_shape _ hresume
      exact ⟨hlisted, (hroused.tables table).1.trans htid⟩
    | @killed tid k₁ _ _ _ _ hcancel =>
      have heq : k.call t = .poll table := by
        rw [← congrFun (System.cancelWait_others hcancel).1 t]
        exact hcall
      rcases System.cancelWait_cases hcancel with ⟨-, q, -, rfl⟩ | ⟨-, b₁, -, rfl⟩ |
        ⟨-, rfl⟩ | ⟨-, mutex, queues, -, -, rfl⟩ | ⟨-, rfl⟩
      · exact hold heq rfl rfl
      · exact hold heq rfl rfl
      · obtain ⟨_, _, hshape⟩ := System.cancelItems_shape tid k.waitQueues k
        apply hold heq
        · dsimp only
          unfold System.cancelIoWaits
          rw [hshape]
        · dsimp only
          unfold System.cancelIoWaits
          rw [hshape]
      · exact hold heq rfl rfl
      · exact hold heq rfl rfl
    | @pollFailed new _ _ _ k₁ _ hfirst hclean | @polled new _ _ _ k₁ _ _ hfirst hclean =>
      obtain ⟨hcalling, hnew, hnodup, hfree⟩ := hallowed
      have hsame := (System.pollFirst_same hfirst).trans (System.cleanup_same hclean)
      rw [hsame.call] at hcall
      obtain ⟨hne, hlisted, htid⟩ := hpolled hnew hfirst hnodup hfree hcall
      obtain ⟨_, _, rfl⟩ := System.cleanup_shape hclean
      exact ⟨(List.mem_erase_of_ne hne).mpr hlisted, htid⟩
    | @pollWaits r new fds timeout again k₁ queues hrun hr hfirst =>
      obtain ⟨hcalling, hnew, hnodup, hfree⟩ := hallowed
      have hupdate : update k₁.call r (.poll new) t = .poll table := hcall
      rw [(System.pollFirst_same hfirst).call] at hupdate
      by_cases ht : t = r
      · subst ht
        rw [update_self] at hupdate
        obtain rfl := Call.poll.inj hupdate
        obtain ⟨-, -, htid, hlist, -⟩ :=
          System.pollFirst_leaves hanchored.stocked hnew hnodup hfree hfirst
        refine ⟨?_, htid.trans (hsound.runningTid hrun)⟩
        change new ∈ k₁.pollTables
        rw [hlist]
        exact .head _
      · rw [update_of_ne ht] at hupdate
        obtain ⟨-, hlisted, htid⟩ := hpolled hnew hfirst hnodup hfree hupdate
        exact ⟨hlisted, htid⟩
    | @finished r =>
      have hupdate : update k.call r .none t = .poll table := hcall
      refine hold ?_ rfl rfl
      by_cases ht : t = r
      · rw [ht, update_self] at hupdate
        contradiction
      · rwa [update_of_ne ht] at hupdate
    | @pollFinished r own _ _ _ hrun hpoll hclean =>
      rw [(System.cleanup_same hclean).call] at hcall
      dsimp only at hcall
      by_cases ht : t = r
      · rw [ht, update_self] at hcall
        contradiction
      · rw [update_of_ne ht] at hcall
        obtain ⟨hlisted, htid⟩ := hanchored.tables t table hcall
        obtain ⟨_, _, rfl⟩ := System.cleanup_shape hclean
        refine ⟨(List.mem_erase_of_ne ?_).mpr hlisted, htid⟩
        rintro rfl
        exact ht (htid.symm.trans (hanchored.tables r table hpoll).2)
    | _ => simp [Action.onItems] at ha

lemma System.LeavesNobody.spares {k : System N} {a : Action} (h : k.LeavesNobody a) :
    Spares False k a := by
  cases a with
  | threadKill tid => exact h.1
  | _ => trivial

namespace Anchored

variable {k k' : System N} {a : Action} {outcome : Outcome}

/-- What an action has to leave alone for the waiters to stay registered. -/
theorem effect (h : Anchored k) (hsound : Sound False k) (hallowed : k.Allowed a)
    (hkeep : k.LeavesNobody a) (hmay : a ≠ .threadMaySuspend)
    (heffect : Effect k a k' outcome) : Anchored k' := by
  have hspares := hkeep.spares
  have hitems := heffect.items hsound h hallowed hkeep hmay
  refine ⟨heffect.validMutexes hsound hspares h.valid,
    heffect.stocked hallowed hmay h.stocked,
    fun t table hcall => heffect.tables hsound h hallowed hmay hcall,
    fun t hstill huntimed => ?_⟩
  by_cases hrun : k.sched.running = some t
  · exact heffect.begins hsound h hallowed hkeep hmay hrun hstill huntimed
  · have hrecord := heffect.waits_before hmay hrun hstill
    have hwaits : k.sched.Waits t := hstill.congr hrecord.symm
    rw [hrecord] at huntimed ⊢
    rw [heffect.call_kept hmay hwaits.live hrun]
    obtain ⟨hwait, hanchor⟩ := h.waiters t hwaits huntimed
    refine ⟨hwait, ?_⟩
    cases hcall : k.call t with
    | none =>
      rw [hcall] at hanchor
      exact hanchor
    | lock m msecs =>
      rw [hcall] at hwait hanchor
      exact heffect.keeps_lock hsound hspares h.valid hanchor.1 hanchor.2 hwaits hwait hstill
    | events q msecs =>
      rw [hcall] at hanchor
      obtain ⟨hq, hwatch, hbit⟩ := hanchor
      exact heffect.keeps_queue hkeep hmay hq hwatch hbit hwaits hcall hstill
    | barrier b =>
      rw [hcall] at hwait hanchor
      exact heffect.keeps_barrier hkeep hmay hanchor.1 hanchor.2 hwaits hwait hstill
    | io w msecs =>
      rw [hcall] at hanchor
      rcases hitems t hrun hstill with hleaves | ⟨w', hroused, -⟩
      · rcases hanchor with hbit | ⟨b, hb, hitem⟩
        · exact .inl (hleaves.io hbit)
        · exact .inr ⟨b, hleaves.owner w b hb hitem⟩
      · by_cases htaken : ∃ b ∈ k.waitQueue w', k.item b = some (.owner t)
        · exact .inl (hroused.owners t (.inr htaken))
        · rcases hanchor with hbit | ⟨b, hb, hitem⟩
          · exact .inl (hroused.owners t (.inl hbit))
          · refine .inr ⟨b, hroused.stays (.owner t) ?_ w b hb hitem⟩
            exact fun c hc hsame => htaken ⟨c, hc, hsame⟩
    | poll table =>
      rw [hcall] at hanchor
      rcases hitems t hrun hstill with hleaves | ⟨w', hroused, hlist⟩
      · rcases hanchor with hbit | hpolls
        · exact .inl (hleaves.poll hbit)
        · obtain ⟨hstays, hlisted, htable⟩ := hleaves.tables table hpolls
          exact .inr (hpolls.kept hlisted htable hstays)
      · rcases hanchor with hbit | hpolls
        · exact .inl (hroused.marks t hbit)
        · by_cases htaken : ∃ b ∈ k.waitQueue w', k.item b = some (.poll table)
          · obtain ⟨b, hb, hitem⟩ := htaken
            rw [← hpolls.tid]
            exact .inl (hroused.polls table b hb hitem hpolls.quiet)
          · obtain ⟨htid, hitems', hsignal⟩ := hroused.tables table
            rcases hsignal with hsignal | hmark
            · refine .inr ⟨?_, htid.trans hpolls.tid, hsignal.trans hpolls.quiet, ?_, ?_⟩
              · rw [hlist]
                exact hpolls.listed
              · rw [hitems']
                exact hpolls.nonempty
              · intro p hp
                rw [hitems'] at hp
                refine hroused.stays (.poll table) ?_ p.2 p.1 (hpolls.linked p hp).1
                  (hpolls.linked p hp).2
                exact fun c hc hsame => htaken ⟨c, hc, hsame⟩
            · rw [← hpolls.tid]
              exact .inl hmark

/-- An update makes those ready who are marked. -/
lemma settle (h : Anchored k) (hsettled : System.Settled k k') : Anchored k' := by
  have htables := hsettled.tables
  refine ⟨?_, h.stocked.congr htables.waitQueue htables.item, fun t table hcall => ?_,
    fun t hstill huntimed => ?_⟩
  · unfold System.ValidMutexes
    rw [htables.mutexes, htables.mutex]
    exact h.valid
  · rw [htables.call] at hcall
    rw [htables.pollTables, htables.pollTable]
    exact h.tables t table hcall
  · have hrecord := hsettled.waiting hstill.state
    have hwaits : k.sched.Waits t := hstill.congr hrecord.symm
    have hquiet := hsettled.not_due hwaits.live hstill.state
    rw [hrecord] at huntimed ⊢
    rw [htables.call]
    obtain ⟨hwait, hanchor⟩ := h.waiters t hwaits huntimed
    refine ⟨hwait, ?_⟩
    cases hcall : k.call t with
    | none =>
      rw [hcall] at hanchor
      exact hanchor
    | lock m msecs =>
      rw [hcall] at hanchor
      rw [System.Anchors, htables.mutexes, htables.mutex]
      exact hanchor
    | events q msecs =>
      rw [hcall] at hwait hanchor
      obtain ⟨hq, hwatch, hbit⟩ := hanchor
      have hflag : (k.sched.storage t).wait.event = true := by rw [hwait]; rfl
      rw [System.Anchors, htables.evQueues, htables.evQueue]
      refine ⟨hq, hwatch, ?_⟩
      obtain ⟨s, rfl, -⟩ := hsettled
      obtain ⟨T, bar, hall, -⟩ := k.resumeAll_eq
      rw [hall]
      dsimp only
      rw [hbit, Bool.true_and, Bool.not_eq_true', Bool.eq_false_iff]
      exact fun hdue => hquiet (.inl ⟨hflag, hdue⟩)
    | barrier b =>
      rw [hcall] at hwait hanchor
      obtain ⟨hb, hin⟩ := hanchor
      have hflag : (k.sched.storage t).wait.barrier = true := by rw [hwait]; rfl
      have hclosed : (k.barrier b).isOpen = false := by
        rw [Bool.eq_false_iff]
        exact fun hopen => hquiet (.inr (.inl ⟨hflag, b, hb, hopen, hin⟩))
      rw [System.Anchors, htables.barriers]
      refine ⟨hb, ?_⟩
      obtain ⟨s, rfl, -⟩ := hsettled
      obtain ⟨T, bar, hall, hids, -⟩ := k.resumeAll_eq
      rw [hall]
      rw [hids, hin, hclosed]
      simp
    | io w msecs =>
      rw [hcall] at hwait hanchor
      have hflag : (k.sched.storage t).wait.completion = true := by rw [hwait]; rfl
      rw [System.Anchors, htables.waitQueue, htables.item]
      exact .inr (hanchor.resolve_left fun hbit =>
        hquiet (.inr (.inr ⟨hflag, .inl hbit⟩)))
    | poll table =>
      rw [hcall] at hwait hanchor
      have hflag : (k.sched.storage t).wait.completion = true := by rw [hwait]; rfl
      have hpolls := hanchor.resolve_left fun hbit =>
        hquiet (.inr (.inr ⟨hflag, .inr hbit⟩))
      refine .inr (hpolls.kept ?_ ?_ (.of_eq htables.waitQueue htables.item))
      · rw [htables.pollTables]
        exact hpolls.listed
      · rw [htables.pollTable]

lemma keeps : Keeps (N := N) System.LeavesNobody Anchored where
  spares := fun _ _ h => h.spares
  suspend := fun _ => trivial
  effect := fun _ _ _ _ hsound h hallowed hkeep hmay heffect =>
    h.effect hsound hallowed hkeep hmay heffect
  settle := fun _ _ h hsettled => h.settle hsettled

lemma start (hboot : boot N = some k) : Anchored k := by
  have hnobody : ∀ t, ¬k.sched.Waits t := by
    intro t hwaits
    have hidle := Sched.Idle.start hboot
    have hstart : Sound True k ∧ _ := Sound.start hboot
    obtain ⟨hsound, hrun⟩ := hstart
    obtain ⟨L, hholds, hplace⟩ := hsound.inPlace
    have hwait : L .wait = [] := by rw [← hholds.toList, hidle.toList_wait]
    have hdelay : L .delay = [] := by rw [← hholds.toList, hidle.toList_delay]
    rcases hplace t hwaits.live with ⟨hself, -⟩ | ⟨-, q, ht, hfits, -⟩
    · rw [hrun] at hself
      contradiction
    · cases q with
      | ready prio | dead => simp [Place.Fits, hwaits.state] at hfits
      | wait => simp [hwait] at ht
      | delay => simp [hdelay] at ht
  obtain ⟨s₀, -, hrest⟩ := Option.bind_eq_some_iff.mp hboot
  obtain ⟨s₂, hthreads, rfl⟩ := Option.map_eq_some_iff.mp hrest
  refine ⟨fun m hm => ?_, ⟨fun _ => List.nodup_nil, fun _ a ha => ?_, fun _ _ a ha => ?_⟩,
    fun t table hcall => ?_, fun t hwaits => ?_⟩
  · contradiction
  · contradiction
  · contradiction
  · contradiction
  · exact absurd hwaits (hnobody t)

/-- The object of a call knows the thread. -/
lemma registered (h : Anchored k) {t : Nat} (hwaits : k.sched.Waits t)
    (huntimed : (k.sched.storage t).wait.timeout = false) : k.Registered t := by
  obtain ⟨hwait, hanchor⟩ := h.waiters t hwaits huntimed
  cases hcall : k.call t with
  | none =>
    rw [hcall] at hanchor
    exact hanchor.elim
  | lock m msecs =>
    rw [hcall] at hwait hanchor
    exact .mutex m (by rw [hwait]; rfl) hanchor.1 hanchor.2
  | events q msecs =>
    rw [hcall] at hwait hanchor
    exact .events q (by rw [hwait]; rfl) hanchor.1 hanchor.2.1 hanchor.2.2
  | barrier b =>
    rw [hcall] at hwait hanchor
    exact .barrier b (by rw [hwait]; rfl) hanchor.1 hanchor.2
  | io w msecs =>
    rw [hcall] at hwait hanchor
    rcases hanchor with hbit | ⟨a, ha, hitem⟩
    · exact .marked (by rw [hwait]; rfl) (.inl hbit)
    · exact .io w a (by rw [hwait]; rfl) ha hitem
  | poll table =>
    rw [hcall] at hwait hanchor
    rcases hanchor with hbit | hpolls
    · exact .marked (by rw [hwait]; rfl) (.inr hbit)
    · obtain ⟨p, hp⟩ := List.exists_mem_of_ne_nil _ hpolls.nonempty
      obtain ⟨ha, hitem⟩ := hpolls.linked p hp
      exact .poll table p.2 p.1 (by rw [hwait]; rfl) hpolls.listed hpolls.tid hpolls.quiet ha
        hitem

end Anchored

/-- The waiters of an open barrier are resumed when it ends. -/
lemma System.LeavesNobody.wakes {k k' : System N} {a : Action} (h : k.LeavesNobody a)
    (hexec : k.exec a = some k') : k.DoneWakes a k' := by
  intro t hwaits hfor
  cases a with
  | barrierDone b =>
    have hopen : (k.barrier b).isOpen = true :=
      h.resolve_right fun hnobody => hnobody t hwaits.live.lt hwaits hfor
    obtain ⟨⟨k₁, outcome⟩, hact, hrest⟩ := Option.bind_eq_some_iff.mp hexec
    change k.barrierDone b = some (k₁, outcome) at hact
    unfold System.barrierDone at hact
    split at hact
    · next hb =>
        cases hact
        cases hrest
        obtain ⟨T, bar, heq, -, hT⟩ := System.resumeOnBarriers_eq k.barriers k
        rw [heq]
        have hres : k.sched.Resumable .BARRIER t :=
          ⟨hwaits.live, hwaits.state, WaitFlags.inter_barrier.mpr hfor.1⟩
        rw [Sched.wakeAll_storage_of ((hT t).mpr ⟨hwaits.live.lt, b, hb, hopen, hfor.2⟩) hres]
        rfl
    · contradiction
  | eventDoneQueue q => exact absurd hfor (h t hwaits.live.lt hwaits)
  | _ => exact hfor.elim

end DiegOS.Kernel
