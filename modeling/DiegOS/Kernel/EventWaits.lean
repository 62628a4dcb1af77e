import DiegOS.Kernel.IoWaits

/-!
# What a wait for events returns

A thread is marked in one bitmap whatever queue it waits for, and an update resumes it for an
event in any queue that it watches.  When it runs again it looks at the queue it has waited
for, and calls an empty one a time-out.

Main results:

- Theorem `EventCalls.exec`: who is resumed has events in the queue, or no time left.
- Theorem `event_waits_true`: in which runs the waits tell the truth.
- Theorem `event_wait_untrue`: a wait without a time-out reports one.
-/

namespace DiegOS.Kernel

open Lib Function

variable {N : Nat}

/-! ## The observer -/

/-- The kernel, and when the last wait for events of each thread has begun. -/
structure Clocked (N : Nat) where
  sys : System N
  since : Nat → Nat

namespace Clocked

/-- The times that go with an action. -/
def sinceAfter (x : Clocked N) : Action → Nat → Nat
  | .waitForEvents _ _ => Function.update x.since x.sys.sched.runningTid x.sys.sched.now
  | _ => x.since

/-- An action under observation. -/
def exec (x : Clocked N) (a : Action) : Option (Clocked N) :=
  (x.sys.exec a).map fun k => ⟨k, x.sinceAfter a⟩

/-- Nobody has waited. -/
def start (k : System N) : Clocked N := ⟨k, fun _ => 0⟩

end Clocked

/-- A wait that returns at once reports no time-out, and events only if there are some; so does
one that returns later, unless its time has passed; and a thread that waits for a queue with
events is ready after the next update. -/
structure EventWaitsTrue (x : Clocked N) : Prop where
  immediate : ∀ q msecs k code, x.sys.act (.waitForEvents q msecs) = some (k, .returns code) →
    code ≠ .ETIMEDOUT ∧ (code = .EOK → (x.sys.evQueue q).msgs ≠ [])
  later : ∀ r q msecs again k code, x.sys.sched.running = some r →
    x.sys.call r = .events q msecs → x.sys.act (.finish again) = some (k, .returns code) →
    (code = .EOK → (x.sys.evQueue q).msgs ≠ []) ∧
      (code = .ETIMEDOUT → msecs ≠ 0 ∧ x.since r + msecs ≤ x.sys.sched.now)
  wakes : ∀ t q msecs k, x.sys.call t = .events q msecs → x.sys.sched.Waits t →
    (x.sys.evQueue q).msgs ≠ [] → x.sys.updateSchedule = some k →
    (k.sched.storage t).state = .ready

/-! ## The condition -/

/-- No thread is killed, and no event queue is destroyed. -/
def Eventful : Action → Prop
  | .threadKill _ | .eventDoneQueue _ => False
  | _ => True

instance : DecidablePred Eventful := fun a =>
  decidable_of_iff (¬a matches .threadKill _ | .eventDoneQueue _) (by cases a <;> simp [Eventful])

/-- The queue that a call waits for. -/
def Call.evQueue : Call → Option Nat
  | .events q _ => some q
  | _ => Option.none

/-- The time that a call waits for events at most; 0 if this has no end. -/
def Call.evMsecs : Call → Nat
  | .events _ msecs => msecs
  | _ => 0

/-- Some queue that the thread watches has events. -/
def System.HasEvents (k : System N) (t : Nat) : Prop :=
  ∃ q ∈ k.evQueues, (k.evQueue q).threadid = t ∧ (k.evQueue q).msgs ≠ []

namespace Clocked

/-- The time of a wait for events has passed. -/
def Passed (x : Clocked N) (t : Nat) : Prop :=
  (x.sys.call t).evMsecs ≠ 0 ∧ x.since t + (x.sys.call t).evMsecs ≤ x.sys.sched.now

/-- Who waits for a queue and has events has some in this queue, unless the time has passed. -/
def Heard (x : Clocked N) : Prop :=
  ∀ t < N, ∀ q ∈ (x.sys.call t).evQueue, (x.sys.sched.storage t).state = .waiting →
    x.sys.HasEvents t → (x.sys.evQueue q).msgs ≠ [] ∨ x.Passed t

/-- A wait does not begin while there are events in other queues only, and nobody takes the last
event that a resumed thread has waited for in time. -/
def Undisturbed (x : Clocked N) : Action → Prop
  | .waitForEvents q _ => ∀ r ∈ x.sys.sched.running, (x.sys.evQueue q).threadid = r →
    x.sys.HasEvents r → (x.sys.evQueue q).msgs ≠ []
  | .eventGet q => ∀ t < N, q ∈ (x.sys.call t).evQueue →
    (x.sys.sched.storage t).state ≠ .waiting →
    (x.sys.evQueue q).msgs.length ≠ 1 ∨ x.Passed t
  | _ => True

instance (k : System N) (t : Nat) : Decidable (k.HasEvents t) :=
  inferInstanceAs (Decidable (∃ q ∈ k.evQueues, _))

instance (x : Clocked N) (t : Nat) : Decidable (x.Passed t) :=
  inferInstanceAs (Decidable (_ ∧ _))

instance (x : Clocked N) : Decidable x.Heard := Nat.decidableBallLT _ _

instance (x : Clocked N) : (a : Action) → Decidable (x.Undisturbed a)
  | .waitForEvents _ _ => inferInstanceAs (Decidable (∀ r ∈ x.sys.sched.running, _))
  | .eventGet _ => Nat.decidableBallLT _ _
  | .kernelRun | .threadCreate _ _ | .threadSuspend | .threadMaySuspend | .threadDelay _
  | .threadTerminate | .threadKill _ | .createMutex _ | .lockMutex _ _ | .unlockMutex _
  | .destroyMutex _ | .eventInitQueue _ | .eventDoneQueue _ | .eventWatchQueue _
  | .eventPut _ _ | .barrierCreate _ _ | .barrierDone _ | .barrierOpen _ | .barrierClose _
  | .waitForBarrier _ | .ioWaitInit _ | .ioWait _ _ _ | .ioResume _ | .poll _ _ _ _ | .finish _
  | .tick _ => isTrue trivial

/-- The queue that a thread waits for is the one it is resumed for, and stays filled until the
call returns. -/
def OwnEvents (x : Clocked N) (a : Action) : Prop :=
  Eventful a ∧ x.Undisturbed a ∧ (x.sys.Schedules a → x.Heard)

instance (x : Clocked N) (a : Action) : Decidable (x.OwnEvents a) :=
  inferInstanceAs (Decidable (_ ∧ _ ∧ _))

end Clocked

/-! ## Frames -/

lemma Eventful.not_done {a : Action} (h : Eventful a) (q : Nat) : a ≠ .eventDoneQueue q := by
  rintro rfl
  exact h

lemma Eventful.not_kill {a : Action} (h : Eventful a) (tid : Nat) : a ≠ .threadKill tid := by
  rintro rfl
  exact h

lemma System.cancelWait_evIds {k k' : System N} {tid : Nat} (h : k.cancelWait tid = some k') :
    k'.evIds = k.evIds := by
  rcases cancelWait_cases h with ⟨-, q, -, rfl⟩ | ⟨-, b, -, rfl⟩ | ⟨-, rfl⟩ |
    ⟨-, mutex, queues, -, -, rfl⟩ | ⟨-, rfl⟩
  · rfl
  · rfl
  · exact (cancelIoWaits_same k tid).evIds
  · rfl
  · rfl

namespace Effect

variable {k k' : System N} {a : Action} {outcome : Outcome} {t q : Nat}

variable (h : Effect k a k' outcome)
include h

/-- The mark of a thread that waits for events stays. -/
lemma evIds_kept (hmay : a ≠ .threadMaySuspend)
    (hbit : k.evIds t = true) : k'.evIds t = true := by
  cases h with
  | stayed | gaveWay => exact absurd rfl hmay
  | killed _ _ _ _ hcancel =>
    rw [← hbit]
    exact congrFun (System.cancelWait_evIds hcancel) t
  | @eventWaits r =>
    by_cases ht : t = r
    · subst ht
      exact update_self ..
    · exact (update_of_ne ht _ _).trans hbit
  | barrierDone =>
    obtain ⟨_, _, heq, -⟩ := System.resumeOnBarriers_eq k.barriers k
    rw [heq]
    exact hbit
  | ioResumed hresume =>
    rw [(System.resumeItems_same hresume).evIds]
    exact hbit
  | pollFailed hfirst hclean | polled hfirst hclean =>
    rw [((System.pollFirst_same hfirst).trans (System.cleanup_same hclean)).evIds]
    exact hbit
  | pollWaits hrun hr hfirst =>
    have hsame := (System.pollFirst_same hfirst).evIds
    unfold System.blocked
    dsimp only
    rw [hsame]
    exact hbit
  | pollFinished hrun hcall hclean =>
    rw [(System.cleanup_same hclean).evIds]
    exact hbit
  | _ => exact hbit

/-- A queue stays, with the thread that watches it, and keeps an event unless the last one is
taken. -/
lemma queue_kept (hdone : a ≠ .eventDoneQueue q)
    (hkill : a ≠ .threadKill (k.evQueue q).threadid) (hq : q ∈ k.evQueues) :
    q ∈ k'.evQueues ∧
    ((k.evQueue q).threadid ≠ THREAD_TID_INVALID →
      (k'.evQueue q).threadid = (k.evQueue q).threadid) ∧
    ((a = .eventGet q → (k.evQueue q).msgs.length ≠ 1) → (k.evQueue q).msgs ≠ [] →
      (k'.evQueue q).msgs ≠ []) := by
  have hframe : a.onQueues = false → q ∈ k'.evQueues ∧
      ((k.evQueue q).threadid ≠ THREAD_TID_INVALID →
        (k'.evQueue q).threadid = (k.evQueue q).threadid) ∧
      ((a = .eventGet q → (k.evQueue q).msgs.length ≠ 1) → (k.evQueue q).msgs ≠ [] →
        (k'.evQueue q).msgs ≠ []) := by
    intro hno
    obtain ⟨hlist, hqueue⟩ := h.framed.queues hno
    rw [hlist, hqueue]
    exact ⟨hq, fun _ => rfl, fun _ hmsgs => hmsgs⟩
  have hset : ∀ {q' : Nat} {e : EvQueue},
      (q = q' → ((k.evQueue q).threadid ≠ THREAD_TID_INVALID →
          e.threadid = (k.evQueue q).threadid) ∧
        ((a = .eventGet q → (k.evQueue q).msgs.length ≠ 1) → (k.evQueue q).msgs ≠ [] →
          e.msgs ≠ [])) →
      q ∈ (k.setQueue q' e).evQueues ∧
      ((k.evQueue q).threadid ≠ THREAD_TID_INVALID →
        ((k.setQueue q' e).evQueue q).threadid = (k.evQueue q).threadid) ∧
      ((a = .eventGet q → (k.evQueue q).msgs.length ≠ 1) → (k.evQueue q).msgs ≠ [] →
        ((k.setQueue q' e).evQueue q).msgs ≠ []) := by
    intro q' e he
    refine ⟨hq, ?_⟩
    by_cases hqq : q = q'
    · subst hqq
      rw [show (k.setQueue q e).evQueue q = e from update_self ..]
      exact he rfl
    · rw [show (k.setQueue q' e).evQueue q = k.evQueue q from update_of_ne hqq _ _]
      exact ⟨fun _ => rfl, fun _ hmsgs => hmsgs⟩
  cases h with
  | unchanged | killedReady | killedLost => exact ⟨hq, fun _ => rfl, fun _ hmsgs => hmsgs⟩
  | @killed tid _ _ _ _ _ hcancel =>
    have hkilled : (k.evQueue q).threadid ≠ tid := fun heq => hkill (by rw [heq])
    rcases System.cancelWait_cases hcancel with ⟨-, q', hfind, rfl⟩ | ⟨-, b, -, rfl⟩ |
      ⟨-, rfl⟩ | ⟨-, mutex, queues, -, -, rfl⟩ | ⟨-, rfl⟩
    · have hfound := List.find?_some hfind
      apply hset
      rintro rfl
      exact absurd (of_decide_eq_true hfound) hkilled
    · exact ⟨hq, fun _ => rfl, fun _ hmsgs => hmsgs⟩
    · have hsame := System.cancelIoWaits_same k tid
      rw [hsame.evQueues, hsame.evQueue]
      exact ⟨hq, fun _ => rfl, fun _ hmsgs => hmsgs⟩
    · exact ⟨hq, fun _ => rfl, fun _ hmsgs => hmsgs⟩
    · exact ⟨hq, fun _ => rfl, fun _ hmsgs => hmsgs⟩
  | queueDone =>
    refine ⟨(List.mem_erase_of_ne ?_).mpr hq, fun _ => rfl, fun _ hmsgs => hmsgs⟩
    rintro rfl
    exact hdone rfl
  | @queueCreated q' hnew =>
    have hqq : q ≠ q' := fun heq => hnew (heq ▸ hq)
    have hsame : (k.eventInitQueue q').evQueue q = k.evQueue q := update_of_ne hqq _ _
    rw [hsame]
    exact ⟨.tail _ hq, fun _ => rfl, fun _ hmsgs => hmsgs⟩
  | watched _ hfree =>
    apply hset
    rintro rfl
    exact ⟨fun hwatch => absurd hfree hwatch, fun _ hmsgs => hmsgs⟩
  | put =>
    apply hset
    rintro rfl
    exact ⟨fun _ => rfl, fun _ _ => by simp⟩
  | got =>
    apply hset
    rintro rfl
    refine ⟨fun _ => rfl, fun hmore hmsgs hempty => ?_⟩
    have hlen := congrArg List.length hempty
    rw [List.length_tail] at hlen
    have hlong := hmore rfl
    have hpos := List.length_pos_of_ne_nil hmsgs
    simp at hlen
    omega
  | _ => exact hframe rfl

/-- A thread that is in a call and does not wait does not begin to. -/
lemma not_waiting (hallowed : k.Allowed a) (hevent : Eventful a)
    (hmay : a ≠ .threadMaySuspend) (hcall : k.call t ≠ .none)
    (hstate : (k.sched.storage t).state ≠ .waiting) :
    (k'.sched.storage t).state ≠ .waiting := by
  have hother : ∀ {r : Nat} {u : Thread}, k.call r = .none →
      (update k.sched.storage r u t).state ≠ .waiting := by
    intro r u hnone
    rw [update_of_ne]
    · exact hstate
    · rintro rfl
      exact hcall hnone
  have hcalling : ∀ {r : Nat}, k.Calling → k.sched.running = some r → k.call r = .none := by
    intro r hcalls hrun
    obtain ⟨r', hrun', -, hnone⟩ := hcalls
    rw [hrun] at hrun'
    obtain rfl := Option.mem_some_iff.mp hrun'
    exact hnone
  have hwoken : ∀ {flags : WaitFlags} {T : Nat → Bool},
      ((k.sched.wakeAll flags T).storage t).state ≠ .waiting := by
    intro flags T
    rcases k.sched.wakeAll_cases flags T t with heq | ⟨-, -, heq⟩
    · rw [heq]
      exact hstate
    · rw [heq]
      simp [Thread.resumed]
  cases h with
  | stayed | gaveWay => exact absurd rfl hmay
  | killed | killedReady | killedLost => exact absurd hevent id
  | @created name prio tid =>
    change (update k.sched.storage tid (.fresh name prio tid) t).state ≠ .waiting
    by_cases ht : t = tid
    · subst ht
      rw [update_self]
      simp [Thread.fresh]
    · rw [update_of_ne ht]
      exact hstate
  | suspended hrun =>
    obtain ⟨r', hrun', hnone⟩ := hallowed
    rw [hrun] at hrun'
    obtain rfl := Option.mem_some_iff.mp hrun'
    exact hother hnone
  | delayed hrun | terminated hrun | lockWaits hm hrun | eventWaits hq hrun
  | barrierWaits hb hrun => exact hother (hcalling hallowed hrun)
  | ioWaits hrun => exact hother (hcalling hallowed.1 hrun)
  | pollWaits hrun hr hfirst =>
    have hsame := (System.pollFirst_same hfirst).sched
    unfold System.blocked
    dsimp only
    rw [hsame]
    exact hother (hcalling hallowed.1 hrun)
  | unlocked => exact hwoken
  | barrierDone =>
    obtain ⟨_, _, heq, -⟩ := System.resumeOnBarriers_eq k.barriers k
    rw [heq]
    exact hwoken
  | ioResumed hresume =>
    rw [(System.resumeItems_same hresume).sched]
    exact hstate
  | pollFailed hfirst hclean | polled hfirst hclean =>
    rw [((System.pollFirst_same hfirst).trans (System.cleanup_same hclean)).sched]
    exact hstate
  | pollFinished hrun hpoll hclean =>
    rw [(System.cleanup_same hclean).sched]
    exact hstate
  | _ => exact hstate

/-- Time does not go back. -/
lemma now_le (hevent : Eventful a) (hmay : a ≠ .threadMaySuspend) :
    k.sched.now ≤ k'.sched.now := by
  cases h with
  | stayed | gaveWay => exact absurd rfl hmay
  | killed | killedReady | killedLost => exact absurd hevent id
  | ticked hnow => exact hnow
  | barrierDone =>
    obtain ⟨_, _, heq, -⟩ := System.resumeOnBarriers_eq k.barriers k
    rw [heq]
    exact le_rfl
  | ioResumed hresume => rw [(System.resumeItems_same hresume).sched]
  | pollFailed hfirst hclean | polled hfirst hclean =>
    rw [((System.pollFirst_same hfirst).trans (System.cleanup_same hclean)).sched]
  | pollWaits hrun hr hfirst =>
    have hsame := (System.pollFirst_same hfirst).sched
    unfold System.blocked
    dsimp only
    rw [hsame]
    exact le_rfl
  | pollFinished hrun hpoll hclean => rw [(System.cleanup_same hclean).sched]
  | _ => exact le_rfl

end Effect

/-! ## The invariant -/

namespace Clocked

/-- The thread is marked and waits for an event, or until its time has passed. -/
structure Expects (x : Clocked N) (q msecs t : Nat) : Prop where
  waits : x.sys.sched.Waits t
  watch : (x.sys.evQueue q).threadid = t
  flags : (x.sys.sched.storage t).wait.events = .EVENT
  bit : x.sys.evIds t = true
  timed : (x.sys.sched.storage t).wait.timeout = true →
    msecs ≠ 0 ∧ (x.sys.sched.storage t).delay = x.since t + msecs

/-- The thread does not wait any more: its queue has events, or its time has passed. -/
structure Answered (x : Clocked N) (q msecs t : Nat) : Prop where
  state : (x.sys.sched.storage t).state ≠ .waiting
  reason : (x.sys.evQueue q).msgs ≠ [] ∨ msecs ≠ 0 ∧ x.since t + msecs ≤ x.sys.sched.now

end Clocked

/-- A thread in a wait for events expects one or has been answered. -/
def EventCalls (x : Clocked N) : Prop :=
  ∀ t q msecs, x.sys.call t = .events q msecs →
    t < N ∧ q ∈ x.sys.evQueues ∧ (x.Expects q msecs t ∨ x.Answered q msecs t)

namespace Clocked

variable {x : Clocked N} {k' : System N} {a : Action} {outcome : Outcome} {q msecs t : Nat}

/-- Who is in a call keeps his time. -/
lemma sinceAfter_eq (hsound : Sound False x.sys) (hallowed : x.sys.Allowed a)
    (hcall : x.sys.call t ≠ .none) : x.sinceAfter a t = x.since t := by
  cases a with
  | waitForEvents q' msecs' =>
    obtain ⟨r, hrun, -, hnone⟩ := hallowed
    rw [sinceAfter, hsound.runningTid hrun]
    apply update_of_ne
    rintro rfl
    exact hcall hnone
  | _ => rfl

/-- An action does not resume a thread that waits for an event. -/
lemma Expects.effect (h : x.Expects q msecs t) (hsound : Sound False x.sys)
    (hallowed : x.sys.Allowed a) (hevent : Eventful a) (hmay : a ≠ .threadMaySuspend)
    (hq : q ∈ x.sys.evQueues) (hcall : x.sys.call t ≠ .none)
    (heffect : Effect x.sys a k' outcome) :
    (⟨k', x.sinceAfter a⟩ : Clocked N).Expects q msecs t := by
  have hkill : a ≠ .threadKill t := by
    rintro rfl
    exact hevent
  have hrecord : k'.sched.storage t = x.sys.sched.storage t := by
    have hmutex : (x.sys.sched.storage t).wait.mutex = false := congrArg WaitFlags.mutex h.flags
    have hbarrier : (x.sys.sched.storage t).wait.barrier = false :=
      congrArg WaitFlags.barrier h.flags
    rcases heffect.waiting_record hsound h.waits.live h.waits.state hkill hmay with
      hsame | ⟨-, ⟨hflag, -⟩ | ⟨hflag, -⟩⟩
    · exact hsame
    · simp [hmutex] at hflag
    · simp [hbarrier] at hflag
  have hvalid : t ≠ THREAD_TID_INVALID := Nat.ne_of_lt (Nat.lt_trans h.waits.live.lt hsound.size)
  constructor
  · exact h.waits.congr hrecord
  · obtain ⟨-, hwatch, -⟩ := heffect.queue_kept (hevent.not_done q) (hevent.not_kill _) hq
    exact (hwatch (by rw [h.watch]; exact hvalid)).trans h.watch
  · dsimp only
    rw [hrecord]
    exact h.flags
  · exact heffect.evIds_kept hmay h.bit
  · dsimp only
    rw [hrecord, sinceAfter_eq hsound hallowed hcall]
    exact h.timed

/-- Nobody takes the event that a thread was resumed for, and time does not go back. -/
lemma Answered.effect (h : x.Answered q msecs t) (hsound : Sound False x.sys)
    (hallowed : x.sys.Allowed a) (hevent : Eventful a) (hmay : a ≠ .threadMaySuspend)
    (hcalm : x.Undisturbed a) (hlt : t < N) (hq : q ∈ x.sys.evQueues)
    (hcall : x.sys.call t = .events q msecs) (heffect : Effect x.sys a k' outcome) :
    (⟨k', x.sinceAfter a⟩ : Clocked N).Answered q msecs t := by
  have hnone : x.sys.call t ≠ .none := by simp [hcall]
  have hlate : msecs ≠ 0 ∧ x.since t + msecs ≤ x.sys.sched.now →
      msecs ≠ 0 ∧ x.sinceAfter a t + msecs ≤ k'.sched.now := by
    rintro ⟨hmsecs, htime⟩
    rw [sinceAfter_eq hsound hallowed hnone]
    exact ⟨hmsecs, htime.trans (heffect.now_le hevent hmay)⟩
  refine ⟨heffect.not_waiting hallowed hevent hmay hnone h.state, ?_⟩
  rcases h.reason with hmsgs | htime
  · by_cases hget : a = .eventGet q → (x.sys.evQueue q).msgs.length ≠ 1
    · exact .inl ((heffect.queue_kept (hevent.not_done q) (hevent.not_kill _) hq).2.2 hget hmsgs)
    · -- The last event is taken, but the time has passed.
      obtain ⟨rfl, hlast⟩ := Classical.not_imp.mp hget
      have hpassed := (hcalm t hlt (by rw [hcall]; rfl) h.state).resolve_left hlast
      rw [Passed, hcall] at hpassed
      exact .inr (hlate hpassed)
  · exact .inr (hlate htime)

/-- The running thread begins to wait for events. -/
lemma expects_new (hsound : Sound False x.sys)
    (hallowed : x.sys.Allowed (.waitForEvents q msecs)) (hrun : x.sys.sched.running = some t)
    (heffect : Effect x.sys (.waitForEvents q msecs) k' outcome)
    (hcall : k'.call t = .events q msecs) :
    t < N ∧ q ∈ k'.evQueues ∧
      (⟨k', x.sinceAfter (.waitForEvents q msecs)⟩ : Clocked N).Expects q msecs t := by
  have hlive := hsound.live hrun
  have hsince : x.sinceAfter (.waitForEvents q msecs) t = x.sys.sched.now := by
    rw [sinceAfter, hsound.runningTid hrun]
    exact update_self ..
  cases heffect with
  | unchanged =>
    obtain ⟨r, hrun', -, hnone⟩ := hallowed
    rw [hrun] at hrun'
    cases hrun'
    rw [hnone] at hcall
    contradiction
  | @eventWaits r _ _ queues hq hrun' hr hwatch hempty =>
    rw [hrun] at hrun'
    cases hrun'
    have hrecord : (System.blocked { x.sys with evIds := update x.sys.evIds t true } t
        (Placed.waitingRecord x.sys.sched t .EVENT msecs) queues
        (.events q msecs)).sched.storage t =
        Placed.waitingRecord x.sys.sched t .EVENT msecs := update_self ..
    refine ⟨hlive.lt, hq, ?_⟩
    constructor
    · refine ⟨⟨hlive.1, hlive.2.1, ?_⟩, ?_, ?_⟩
      · rw [hrecord]
        exact hlive.tid_eq
      · rw [hrecord]
        rfl
      · rw [hrecord]
        exact (hsound.runner t hrun).2
    · exact hwatch
    · dsimp only
      rw [hrecord]
      rfl
    · exact update_self ..
    · dsimp only
      rw [hrecord, hsince]
      intro htimeout
      have hmsecs : msecs ≠ 0 := by simpa [Placed.waitingRecord] using htimeout
      exact ⟨hmsecs, if_pos hmsecs⟩

end Clocked

namespace System

variable {k k' : System N} {a : Action} {t : Nat}

/-- A marked thread is due if a queue that it watches has events. -/
lemma eventDue_iff : k.eventDue k.evQueues t = true ↔
    k.evIds t = true ∧ t ≠ THREAD_TID_INVALID ∧ k.HasEvents t := by
  simp [eventDue, HasEvents, and_assoc]

/-- Who still waits was not due. -/
lemma Settled.not_due (h : Settled k k') (hlive : k.sched.Live t)
    (hstate : (k'.sched.storage t).state = .waiting) : ¬k.Due t := by
  intro hdue
  have hwaiting : (k.sched.storage t).state = .waiting := by
    rw [← h.waiting hstate]
    exact hstate
  obtain ⟨s, rfl, hsettles⟩ := h
  have hsame := hsettles.waiting t hstate
  rw [resumeAll_record_of hdue hlive hwaiting] at hsame
  rw [hsame] at hstate
  contradiction

lemma Settled.now (h : Settled k k') : k'.sched.now = k.sched.now := by
  obtain ⟨s, rfl, hsettles⟩ := h
  exact hsettles.now.trans k.resumeAll_awakens.now

end System

namespace Clocked

variable {x : Clocked N} {k' : System N} {a : Action}

/-- An update lets nobody wait. -/
lemma Heard.settle (h : x.Heard) (hsettled : System.Settled x.sys k') :
    (⟨k', x.since⟩ : Clocked N).Heard := by
  have htables := hsettled.tables
  intro t ht q hcall hstate hevents
  unfold System.HasEvents at hevents
  unfold Passed
  dsimp only at hcall hstate hevents ⊢
  rw [htables.call] at hcall
  rw [htables.evQueues, htables.evQueue] at hevents
  rw [htables.evQueue, htables.call, hsettled.now]
  apply h t ht q hcall _ hevents
  rw [← hsettled.waiting hstate]
  exact hstate

/-- An action that calls the scheduler lets only its own thread wait. -/
lemma Heard.effect (h : x.Heard) (hsound : Sound False x.sys) (hallowed : x.sys.Allowed a)
    (hevent : Eventful a) (hcalm : x.Undisturbed a) (hmay : a ≠ .threadMaySuspend)
    (heffect : Effect x.sys a k' .schedules) : (⟨k', x.sinceAfter a⟩ : Clocked N).Heard := by
  have hqueues : a.onQueues = false := by
    cases heffect with
    | unchanged hout | polled _ _ hout | pollFinished _ _ _ hout => exact absurd rfl hout
    | _ => rfl
  obtain ⟨hlist, hqueue⟩ := heffect.framed.queues hqueues
  intro t ht q hcall hstate hevents
  unfold System.HasEvents at hevents
  dsimp only at hcall hstate hevents ⊢
  rw [hlist, hqueue] at hevents
  rw [hqueue]
  rcases heffect.call_cases (t := t) hmay with heq | heq | ⟨hrun, heq⟩
  · rw [heq] at hcall
    have hnone : x.sys.call t ≠ .none := by
      intro hnone
      rw [hnone] at hcall
      simp [Call.evQueue] at hcall
    have hwaiting : (x.sys.sched.storage t).state = .waiting := by
      by_contra hnot
      exact heffect.not_waiting hallowed hevent hmay hnone hnot hstate
    refine (h t ht q hcall hwaiting hevents).imp_right fun hpassed => ?_
    unfold Passed at hpassed ⊢
    dsimp only
    rw [heq, sinceAfter_eq hsound hallowed hnone]
    exact ⟨hpassed.1, hpassed.2.trans (heffect.now_le hevent hmay)⟩
  · rw [heq] at hcall
    simp [Call.evQueue] at hcall
  · rw [heq] at hcall
    cases a <;> simp [Action.call, Call.evQueue] at hcall
    subst hcall
    obtain ⟨-, -, hexpects⟩ := expects_new hsound hallowed hrun heffect heq
    have hwatch := hexpects.watch
    dsimp only at hwatch
    rw [hqueue] at hwatch
    exact .inl (hcalm t hrun hwatch hevents)

end Clocked

namespace EventCalls

variable {x : Clocked N} {k' : System N} {a : Action} {outcome : Outcome}

lemma effect (h : EventCalls x) (hsound : Sound False x.sys) (hallowed : x.sys.Allowed a)
    (hevent : Eventful a) (hcalm : x.Undisturbed a) (hmay : a ≠ .threadMaySuspend)
    (heffect : Effect x.sys a k' outcome) : EventCalls ⟨k', x.sinceAfter a⟩ := by
  intro t q msecs hcall
  rcases heffect.call_cases (t := t) hmay with heq | heq | ⟨hrun, heq⟩
  · rw [heq] at hcall
    obtain ⟨hlt, hq, hcases⟩ := h t q msecs hcall
    have hkept := heffect.queue_kept (hevent.not_done q) (hevent.not_kill _) hq
    refine ⟨hlt, hkept.1, hcases.imp (fun hexpects => ?_) ?_⟩
    · exact hexpects.effect hsound hallowed hevent hmay hq (by simp [hcall]) heffect
    · intro hanswered
      exact hanswered.effect hsound hallowed hevent hmay hcalm hlt hq hcall heffect
  · rw [heq] at hcall
    contradiction
  · have hcall' := hcall
    rw [heq] at hcall'
    cases a <;> simp [Action.call] at hcall'
    obtain ⟨rfl, rfl⟩ := hcall'
    obtain ⟨hlt, hq, hexpects⟩ := Clocked.expects_new hsound hallowed hrun heffect hcall
    exact ⟨hlt, hq, .inl hexpects⟩

/-- An update resumes a thread for an event in its queue, or because its time has passed. -/
lemma settle (h : EventCalls x) (hheard : x.Heard)
    (hsettled : System.Settled x.sys k') : EventCalls ⟨k', x.since⟩ := by
  have htables := hsettled.tables
  have hnow := hsettled.now
  have hbits : ∀ t, k'.evIds t = (x.sys.evIds t && !x.sys.eventDue x.sys.evQueues t) := by
    obtain ⟨s, rfl, -⟩ := hsettled
    obtain ⟨T, bar, hall, -⟩ := x.sys.resumeAll_eq
    intro t
    rw [hall]
  intro t q msecs hcall
  rw [htables.call] at hcall
  obtain ⟨hlt, hq, hcases⟩ := h t q msecs hcall
  refine ⟨hlt, by rw [htables.evQueues]; exact hq, ?_⟩
  rcases hcases with hexpects | hanswered
  · have hlive := hexpects.waits.live
    have hevent : (x.sys.sched.storage t).wait.event = true :=
      congrArg WaitFlags.event hexpects.flags
    by_cases hstate : (k'.sched.storage t).state = .waiting
    · left
      have hrecord := hsettled.waiting hstate
      have hquiet := hsettled.not_due hlive hstate
      constructor
      · exact hexpects.waits.congr hrecord
      · dsimp only
        rw [htables.evQueue]
        exact hexpects.watch
      · dsimp only
        rw [hrecord]
        exact hexpects.flags
      · dsimp only
        rw [hbits, hexpects.bit, Bool.true_and, Bool.not_eq_true', Bool.eq_false_iff]
        exact fun hdue => hquiet (.inl ⟨hevent, hdue⟩)
      · dsimp only
        rw [hrecord]
        exact hexpects.timed
    · right
      refine ⟨hstate, ?_⟩
      rw [htables.evQueue, hnow]
      by_cases hevents : x.sys.HasEvents t
      · refine (hheard t hlt q (by rw [hcall]; rfl) hexpects.waits.state hevents).imp_right ?_
        intro hpassed
        rw [Clocked.Passed, hcall] at hpassed
        exact hpassed
      · right
        have hquiet : ¬x.sys.Due t := by
          rintro (⟨-, hdue⟩ | ⟨hflag, -⟩ | ⟨hflag, -⟩)
          · exact hevents (System.eventDue_iff.mp hdue).2.2
          · exact Bool.false_ne_true
              ((congrArg WaitFlags.barrier hexpects.flags).symm.trans hflag)
          · exact Bool.false_ne_true
              ((congrArg WaitFlags.completion hexpects.flags).symm.trans hflag)
        have hsame := System.resumeAll_record_of_not hquiet
        have hpassed : ¬((x.sys.sched.storage t).wait.timeout = true →
            x.sys.sched.now < (x.sys.sched.storage t).delay) := by
          intro htime
          obtain ⟨s, rfl, hsettles⟩ := hsettled
          apply hstate
          rw [hsettles.kept t, hsame]
          · exact hexpects.waits.state
          · exact x.sys.resumeAll_awakens.live.mpr hlive
          · rw [hsame]
            exact hexpects.waits.state
          · rw [hsame]
            exact hexpects.waits.terminate
          · rw [hsame, x.sys.resumeAll_awakens.now]
            exact htime
        obtain ⟨htimeout, hdelay⟩ := Classical.not_imp.mp hpassed
        obtain ⟨hmsecs, heq⟩ := hexpects.timed htimeout
        rw [heq] at hdelay
        exact ⟨hmsecs, Nat.le_of_not_lt hdelay⟩
  · right
    refine ⟨fun hstate => hanswered.state ?_, ?_⟩
    · rw [← hsettled.waiting hstate]
      exact hstate
    · dsimp only
      rw [htables.evQueue, hnow]
      exact hanswered.reason

theorem exec (h : EventCalls x) (hsound : Sound False x.sys) (hallowed : x.sys.Allowed a)
    (hown : x.OwnEvents a) {x' : Clocked N} (hexec : x.exec a = some x') :
    EventCalls x' := by
  obtain ⟨k₂, hsys, rfl⟩ := Option.map_eq_some_iff.mp hexec
  obtain ⟨⟨k₁, outcome⟩, hact, hrest⟩ := Option.bind_eq_some_iff.mp hsys
  obtain ⟨hevent, hcalm, hheard⟩ := hown
  have hspares : Spares False x.sys a := by
    cases a with
    | threadKill tid => exact absurd hevent id
    | _ => trivial
  have hacted := (hsound.act hallowed hspares hact).placed
  have heffect := hsound.effect hallowed hact
  dsimp only at hrest
  by_cases hmay : a = .threadMaySuspend
  · subst hmay
    have hheard := hheard (.inl rfl)
    obtain ⟨L, hplaced⟩ := hsound.placed
    cases heffect with
    | unchanged hout =>
      rw [if_neg hout] at hrest
      cases hrest
      exact h
    | stayed hupdate =>
      rw [if_neg (by simp)] at hrest
      cases hrest
      exact h.settle hheard (System.updateSchedule_settled hplaced hupdate)
    | @gaveWay k₃ r queues hupdate hrun =>
      rw [if_pos rfl] at hrest hacted
      obtain ⟨L', hplaced'⟩ := hacted
      have hsettled := System.updateSchedule_settled hplaced hupdate
      obtain ⟨hsame, hsound₁, -⟩ := hsound.updateSchedule hupdate
      obtain ⟨r', hrun', -, hnone⟩ := hallowed
      have hallowed₁ : k₃.Allowed .threadSuspend := by
        refine ⟨r', hsame.trans hrun', ?_⟩
        rw [hsettled.tables.call]
        exact hnone
      have heffect : Effect k₃ .threadSuspend _ .schedules :=
        @Effect.suspended _ _ _ queues hrun
      have hend := (h.settle hheard hsettled).effect hsound₁ hallowed₁ trivial trivial
        (by simp) heffect
      have hheard₁ := (hheard.settle hsettled).effect hsound₁ hallowed₁ trivial trivial
        (by simp) heffect
      exact hend.settle hheard₁ (System.scheduleThread_settled hplaced' hrest)
  · have hend := h.effect hsound hallowed hevent hcalm hmay heffect
    by_cases hout : outcome = .schedules
    · subst hout
      rw [if_pos rfl] at hrest hacted
      obtain ⟨L, hplaced⟩ := hacted
      have hheard₁ := (hheard (.inr ⟨_, hact, rfl⟩)).effect hsound hallowed hevent hcalm hmay
        heffect
      exact hend.settle hheard₁ (System.scheduleThread_settled hplaced hrest)
    · rw [if_neg hout] at hrest
      cases hrest
      exact hend

lemma start {k : System N} (hboot : boot N = some k) : EventCalls (Clocked.start k) := by
  obtain ⟨s₀, -, hrest⟩ := Option.bind_eq_some_iff.mp hboot
  obtain ⟨s₂, -, rfl⟩ := Option.map_eq_some_iff.mp hrest
  intro t q msecs hcall
  simp [Clocked.start] at hcall

/-- What the invariant says about the calls. -/
lemma waitsTrue (h : EventCalls x) (hsound : Sound False x.sys) : EventWaitsTrue x := by
  constructor
  · intro q msecs k code hact
    change x.sys.waitForEventsTimed q msecs = _ at hact
    unfold System.waitForEventsTimed at hact
    split at hact
    · split at hact
      · contradiction
      · dsimp only at hact
        split at hact
        · cases hact
          simp
        · split at hact
          · next hmsgs =>
              cases hact
              exact ⟨by simp, fun _ => hmsgs⟩
          · obtain ⟨⟨k₁, ok⟩, -, hres⟩ := Option.map_eq_some_iff.mp hact
            cases ok <;> cases hres
            simp
    · contradiction
  · intro r q msecs again k code hrun hcall hact
    obtain ⟨-, hq, hcases⟩ := h r q msecs hcall
    have hanswered : x.Answered q msecs r :=
      hcases.resolve_left fun hexpects => hsound.not_running hexpects.waits hrun
    change x.sys.finish again = _ at hact
    unfold System.finish at hact
    rw [hrun] at hact
    dsimp only at hact
    rw [hcall] at hact
    dsimp only at hact
    rw [if_pos hq] at hact
    cases hact
    by_cases hmsgs : (x.sys.evQueue q).msgs = []
    · simpa [hmsgs] using hanswered.reason.resolve_left (not_not_intro hmsgs)
    · simp [hmsgs]
  · intro t q msecs k hcall hwaits hmsgs hupdate
    obtain ⟨-, hq, hexpects | hanswered⟩ := h t q msecs hcall
    · have hdue : x.sys.Due t := by
        refine .inl ⟨congrArg WaitFlags.event hexpects.flags, System.eventDue_iff.mpr ?_⟩
        exact ⟨hexpects.bit, Nat.ne_of_lt hwaits.live.1, q, hq, hexpects.watch, hmsgs⟩
      have hresumed := System.resumeAll_record_of hdue hwaits.live hwaits.state
      obtain ⟨L, hplaced⟩ := hsound.placed
      obtain ⟨s, L', heq, -, hstill, -⟩ := System.updateSchedule_spec hplaced
      rw [heq] at hupdate
      cases hupdate
      rw [hstill t (by rw [hresumed]; simp [Thread.resumed]), hresumed]
      rfl
    · exact absurd hwaits.state hanswered.state

end EventCalls

/-! ## Event waits -/

/-- If a thread is only resumed for the queue that it waits for, and nobody takes the last event
before it runs, in every state that is reached the waits for events tell the truth. -/
theorem event_waits_true {k₀ : System N} (hboot : boot N = some k₀) {x : Clocked N}
    (hrun : PartialRuns Clocked.exec (fun x a => x.sys.Allowed a ∧ x.OwnEvents a)
      (Clocked.start k₀) x) : EventWaitsTrue x := by
  have hkept : Sound False x.sys ∧ EventCalls x := by
    apply hrun.invariant (P := fun x => Sound False x.sys ∧ EventCalls x)
    · rintro x a x' ⟨hsound, hcalls⟩ ⟨hallowed, hown⟩ hexec
      refine ⟨?_, hcalls.exec hsound hallowed hown hexec⟩
      obtain ⟨k, hsys, rfl⟩ := Option.map_eq_some_iff.mp hexec
      apply hsound.exec hallowed _ hsys
      cases a with
      | threadKill tid => exact absurd hown.1 id
      | _ => trivial
    · exact ⟨(Sound.start hboot).1, EventCalls.start hboot⟩
  exact hkept.2.waitsTrue hkept.1

/-- Thread 2 watches two queues and waits for the first one without a time-out. -/
def watchesTwo : List Action :=
  twoThreads ++ [.eventInitQueue 7, .eventInitQueue 8, .eventWatchQueue 7, .eventWatchQueue 8,
    .waitForEvents 7 0]

theorem event_waits_true_resumed : ∃ (k₀ : System 4) (x : Clocked 4), boot 4 = some k₀ ∧
    PartialRuns Clocked.exec (fun x a => x.sys.Allowed a ∧ x.OwnEvents a)
      (Clocked.start k₀) x ∧
    x.sys.sched.running = some 2 ∧ x.sys.call 2 = .events 7 0 ∧ EventWaitsTrue x := by
  obtain ⟨k₀, x, hboot, hrun, hrunning, hcall⟩ := exists_observed (N := 4) Clocked.exec
    Clocked.start (fun x a => x.sys.Allowed a ∧ x.OwnEvents a)
    (watchesTwo ++ [.eventPut 7 1, .threadSuspend, .threadSuspend])
    (P := fun x => x.sys.sched.running = some 2 ∧ x.sys.call 2 = .events 7 0) (by decide)
  exact ⟨k₀, x, hboot, hrun, hrunning, hcall, event_waits_true hboot hrun⟩

/-- An event in the second queue has resumed the thread, and the wait without a time-out reports
one. -/
theorem event_wait_untrue : ∃ (k₀ : System 4) (x : Clocked 4), boot 4 = some k₀ ∧
    PartialRuns Clocked.exec (fun x a => x.sys.Allowed a ∧ Eventful a) (Clocked.start k₀) x ∧
    x.sys.sched.running = some 2 ∧ x.sys.call 2 = .events 7 0 ∧
    (∃ p ∈ x.sys.act (.finish []), p.2 = .returns .ETIMEDOUT) ∧ ¬EventWaitsTrue x := by
  obtain ⟨k₀, x, hboot, hrun, hrunning, hcall, ⟨k, outcome⟩, hact, hout⟩ :=
    exists_observed (N := 4) Clocked.exec Clocked.start
    (fun x a => x.sys.Allowed a ∧ Eventful a)
    (watchesTwo ++ [.eventPut 8 1, .threadSuspend, .threadSuspend])
    (P := fun x => x.sys.sched.running = some 2 ∧ x.sys.call 2 = .events 7 0 ∧
      ∃ p ∈ x.sys.act (.finish []), p.2 = .returns .ETIMEDOUT) (by decide)
  subst hout
  refine ⟨k₀, x, hboot, hrun, hrunning, hcall, ⟨_, hact, rfl⟩, fun htrue => ?_⟩
  exact ((htrue.later 2 7 0 [] k .ETIMEDOUT hrunning hcall hact).2 rfl).1 rfl

end DiegOS.Kernel
