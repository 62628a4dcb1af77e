import DiegOS.Kernel.Steps

/-!
# Effects of the actions

Every action up to `schedule_thread`, as a list of what it can do to the state.
Invariants are proved by cases on this list.

Main results:

- Theorem `Sound.effect`: the actions have no other effects.
- Theorem `Sound.act`: every action keeps the places of the threads up to the call of
  `schedule_thread`, unless it kills a thread in a wait that `thread_kill` handles
  wrongly.
- Theorem `Sound.exec`: the same for a whole action.
-/

namespace DiegOS.Kernel

open Lib

variable {N : Nat}

namespace System

/-- The running thread leaves the processor with a new record, blocked in a call. -/
def blocked (k : System N) (r : Nat) (t : Thread) (queues : LinkedQueues Place Nat) (c : Call) :
    System N :=
  { k with
    sched := (k.sched.setThread r t).setQueues queues
    call := Function.update k.call r c }

/-- Overwrite one mutex, event queue or barrier. -/
abbrev setMutex (k : System N) (m : Nat) (m' : Mutex) : System N :=
  { k with mutex := Function.update k.mutex m m' }

abbrev setQueue (k : System N) (q : Nat) (e : EvQueue) : System N :=
  { k with evQueue := Function.update k.evQueue q e }

abbrev setBarrier (k : System N) (b : Nat) (bar : Barrier) : System N :=
  { k with barrier := Function.update k.barrier b bar }

/-- The system in which `poll` begins. -/
def withTable (k : System N) (table : Nat) : System N :=
  { k with
    pollTables := table :: k.pollTables
    pollTable := Function.update k.pollTable table ⟨[], false, k.sched.runningTid⟩ }

end System

/-- What an action does up to `schedule_thread`, in the order of `Action`. -/
inductive Effect (k : System N) : Action → System N → Outcome → Prop where
  | unchanged {a : Action} {outcome : Outcome} (hout : outcome ≠ .schedules) :
      Effect k a k outcome
  | kernelRun (hrun : k.sched.running = none) : Effect k .kernelRun k .schedules
  | created {name : List UInt8} {prio tid : Nat} {queues : LinkedQueues Place Nat}
      (hlt : tid < N) (hdead : ¬k.sched.Live tid) :
      Effect k (.threadCreate name prio) { k with
        sched := Sched.setQueues { k.sched.setThread tid (.fresh name prio tid) with
          threadNum := k.sched.threadNum + 1 } queues
        call := Function.update k.call tid .none } (.creates (some tid))
  | suspended {r : Nat} {queues : LinkedQueues Place Nat} (hrun : k.sched.running = some r) :
      Effect k .threadSuspend
        (k.blocked r { k.sched.storage r with state := .ready } queues (k.call r)) .schedules
  | stayed {k' : System N} (hupdate : k.updateSchedule = some k') :
      Effect k .threadMaySuspend k' .done
  | gaveWay {k₁ : System N} {r : Nat} {queues : LinkedQueues Place Nat}
      (hupdate : k.updateSchedule = some k₁) (hrun : k₁.sched.running = some r) :
      Effect k .threadMaySuspend
        (k₁.blocked r { k₁.sched.storage r with state := .ready } queues (k₁.call r)) .schedules
  | delayed {r msecs : Nat} {queues : LinkedQueues Place Nat}
      (hrun : k.sched.running = some r) :
      Effect k (.threadDelay msecs)
        (k.blocked r (Placed.delayedRecord k.sched r msecs) queues (k.call r)) .schedules
  | terminated {r : Nat} {queues : LinkedQueues Place Nat} (hrun : k.sched.running = some r) :
      Effect k .threadTerminate
        (k.blocked r { k.sched.storage r with state := .dead } queues (k.call r)) .schedules
  | killed {tid : Nat} {k₁ : System N} (hother : k.sched.running ≠ some tid)
      (hlive : k.sched.Live tid) (hidle : tid ≠ THREAD_TID_IDLE)
      (hstate : (k.sched.storage tid).state = .waiting)
      (hcancel : k.cancelWait tid = some k₁) :
      Effect k (.threadKill tid) (k₁.setSched (k₁.sched.setThread tid
        { k₁.sched.storage tid with wait := .none, terminate := true })) .done
  | killedReady {tid : Nat} (hother : k.sched.running ≠ some tid) (hlive : k.sched.Live tid)
      (hidle : tid ≠ THREAD_TID_IDLE) (hstate : (k.sched.storage tid).state = .ready) :
      Effect k (.threadKill tid) (k.setSched (k.sched.setThread tid
        { k.sched.storage tid with terminate := true })) .done
  | killedLost {tid : Nat} {queues : LinkedQueues Place Nat}
      (hother : k.sched.running ≠ some tid) (hlive : k.sched.Live tid)
      (hidle : tid ≠ THREAD_TID_IDLE) (hstate : (k.sched.storage tid).state = .running) :
      Effect k (.threadKill tid) (k.setSched ((k.sched.setThread tid
        { k.sched.storage tid with state := .dead }).setQueues queues)) .done
  | mutexCreated {m : Nat} (hnew : m ∉ k.mutexes) :
      Effect k (.createMutex m) (k.threadCreateMutex m) .done
  | locked {r m msecs : Nat} (hm : m ∈ k.mutexes) (hrun : k.sched.running = some r)
      (hfree : (k.mutex m).lockerTid = THREAD_TID_INVALID) :
      Effect k (.lockMutex m msecs) (k.setMutex m
        { k.mutex m with lockerTid := r }) (.returns .EBUSY)
  | lockWaits {r m msecs : Nat} {m' : Mutex} {queues : LinkedQueues Place Nat}
      (hm : m ∈ k.mutexes) (hrun : k.sched.running = some r) (hr : r ≠ THREAD_TID_IDLE)
      (hheld : (k.mutex m).lockerTid ≠ THREAD_TID_INVALID)
      (hlock : (k.mutex m).lockMutex k.knows r = (m', true)) :
      Effect k (.lockMutex m msecs)
        (System.blocked (k.setMutex m m') r
          (Placed.waitingRecord k.sched r .MUTEX msecs) queues (.lock m msecs)) .schedules
  | unlocked {m : Nat} {m' : Mutex} (hm : m ∈ k.mutexes)
      (hunlock : (k.mutex m).unlockMutex k.knows k.sched.runningTid = some (m', true)) :
      Effect k (.unlockMutex m) ((k.setMutex m m').setSched
        (k.sched.wakeAll .MUTEX fun t => t == m'.lockerTid)) (.returns .EOK)
  | mutexDestroyed {m : Nat} (hm : m ∈ k.mutexes) (hfree : (k.mutex m).isLocked = false)
      (hempty : (k.mutex m).threadIds.isEmpty = true) :
      Effect k (.destroyMutex m) { k with mutexes := k.mutexes.erase m } (.returns .EOK)
  | queueCreated {q : Nat} (hnew : q ∉ k.evQueues) :
      Effect k (.eventInitQueue q) (k.eventInitQueue q) .done
  | queueDone {q : Nat} (hq : q ∈ k.evQueues) :
      Effect k (.eventDoneQueue q) { k with evQueues := k.evQueues.erase q } (.returns .EOK)
  | watched {q : Nat} (hq : q ∈ k.evQueues)
      (hfree : (k.evQueue q).threadid = THREAD_TID_INVALID) :
      Effect k (.eventWatchQueue q) (k.setQueue q
        { k.evQueue q with threadid := k.sched.runningTid }) (.returns .EOK)
  | put {q event : Nat} (hq : q ∈ k.evQueues) :
      Effect k (.eventPut q event) (k.setQueue q
        { k.evQueue q with msgs := (k.evQueue q).msgs ++ [event] }) (.returns .EOK)
  | got {q : Nat} (hq : q ∈ k.evQueues) :
      Effect k (.eventGet q) (k.setQueue q
        { k.evQueue q with msgs := (k.evQueue q).msgs.tail }) (.gets (k.evQueue q).msgs.head?)
  | eventWaits {r q msecs : Nat} {queues : LinkedQueues Place Nat} (hq : q ∈ k.evQueues)
      (hrun : k.sched.running = some r) (hr : r ≠ THREAD_TID_IDLE)
      (hwatch : (k.evQueue q).threadid = r) (hempty : (k.evQueue q).msgs = []) :
      Effect k (.waitForEvents q msecs)
        (System.blocked { k with evIds := Function.update k.evIds r true } r
          (Placed.waitingRecord k.sched r .EVENT msecs) queues (.events q msecs)) .schedules
  | barrierCreated {b : Nat} {autoclose : Bool} (hnew : b ∉ k.barriers) :
      Effect k (.barrierCreate b autoclose) (k.barrierCreate b autoclose) .done
  | barrierDone {b : Nat} (hb : b ∈ k.barriers) :
      Effect k (.barrierDone b) { System.resumeOnBarriers k.barriers k with
        barriers := (System.resumeOnBarriers k.barriers k).barriers.erase b } (.returns .EOK)
  | barrierOpened {b : Nat} (hb : b ∈ k.barriers) :
      Effect k (.barrierOpen b) (k.setBarrier b
        { k.barrier b with isOpen := true }) (.returns .EOK)
  | barrierClosed {b : Nat} (hb : b ∈ k.barriers) :
      Effect k (.barrierClose b) (k.setBarrier b
        { k.barrier b with isOpen := false }) (.returns .EOK)
  | barrierWaits {r b : Nat} {queues : LinkedQueues Place Nat} (hb : b ∈ k.barriers)
      (hrun : k.sched.running = some r) (hr : r ≠ THREAD_TID_IDLE)
      (hclosed : (k.barrier b).isOpen = false) :
      Effect k (.waitForBarrier b)
        (System.blocked (k.setBarrier b
            { k.barrier b with ids := Function.update (k.barrier b).ids r true }) r
          (Placed.waitingRecord k.sched r .BARRIER 0) queues (.barrier b)) .schedules
  | waitQueueAdded {w : Nat} : Effect k (.ioWaitInit w) (k.threadIoWaitInit w) (.returns .EOK)
  | ioWaits {r w a msecs : Nat} {queues : LinkedQueues Place Nat}
      (hrun : k.sched.running = some r) (hr : r ≠ THREAD_TID_IDLE) (hnew : k.item a = none) :
      Effect k (.ioWait w a msecs)
        ((k.addItem w a (.owner r)).blocked r
          (Placed.waitingRecord k.sched r .COMPLETION msecs) queues (.io w msecs)) .schedules
  | ioResumed {w : Nat} {k' : System N}
      (hresume : System.resumeItems w (k.waitQueue w) k = some k') :
      Effect k (.ioResume w) k' (.returns .EOK)
  | pollFailed {table : Nat} {fds : List (Option PollAnswer)} {timeout : Int}
      {again : List (Option (Option Bool))} {k₁ k' : System N}
      (hfirst : System.pollFirst table fds (k.withTable table) = (k₁, false))
      (hclean : k₁.cleanup table = some k') :
      Effect k (.poll table fds timeout again) k' (.returns .ENOSYS)
  | pollWaits {r table : Nat} {fds : List (Option PollAnswer)} {timeout : Int}
      {again : List (Option (Option Bool))} {k₁ : System N} {queues : LinkedQueues Place Nat}
      (hrun : k.sched.running = some r) (hr : r ≠ THREAD_TID_IDLE)
      (hfirst : System.pollFirst table fds (k.withTable table) = (k₁, true))
      (hquiet : (k₁.pollTable table).signalled = false) (htimeout : timeout ≠ 0) :
      Effect k (.poll table fds timeout again)
        (k₁.blocked r (Placed.waitingRecord k.sched r .COMPLETION
          (if timeout < 0 then 0 else timeout.toNat)) queues (.poll table)) .schedules
  | polled {table : Nat} {fds : List (Option PollAnswer)} {timeout : Int}
      {again : List (Option (Option Bool))} {k₁ k' : System N} {outcome : Outcome}
      (hfirst : System.pollFirst table fds (k.withTable table) = (k₁, true))
      (hclean : k₁.cleanup table = some k') (hout : outcome ≠ .schedules) :
      Effect k (.poll table fds timeout again) k' outcome
  | finished {r : Nat} {again : List (Option (Option Bool))} {code : Code}
      (hrun : k.sched.running = some r) (hcall : k.call r ≠ .none)
      (hpoll : ∀ table, k.call r ≠ .poll table) :
      Effect k (.finish again) { k with call := Function.update k.call r .none }
        (.returns code)
  | pollFinished {r table : Nat} {again : List (Option (Option Bool))} {k' : System N}
      {outcome : Outcome} (hrun : k.sched.running = some r) (hcall : k.call r = .poll table)
      (hclean : System.cleanup { k with call := Function.update k.call r .none } table = some k')
      (hout : outcome ≠ .schedules) : Effect k (.finish again) k' outcome
  | ticked {now : Nat} (hnow : k.sched.now ≤ now) :
      Effect k (.tick now) (k.setSched { k.sched with now := now }) .done

namespace System

variable {k k' : System N} {r : Nat} {outcome : Outcome}

/-- A blocked thread that keeps its call. -/
lemma blocked_self (k : System N) (r : Nat) (t : Thread)
    (queues : LinkedQueues Place Nat) :
    k.setSched ((k.sched.setThread r t).setQueues queues) = k.blocked r t queues (k.call r) := by
  simp only [blocked, Function.update_eq_self]

end System

namespace Sound

variable {strict : Prop} {k k' k₀ : System N} {outcome : Outcome} {r tid : Nat}

section

variable (h : Sound strict k)
include h

/-- The running thread begins to wait, with its new record; its call may have changed the
tables before. -/
lemma wait_effect (hrun : k.sched.running = some r)
    (hr : r ≠ THREAD_TID_IDLE) {flags : WaitFlags} (hflags : flags.events ≠ .none)
    {msecs : Nat} {c : Call} {ok : Bool}
    (heq : k₀.waitThread flags msecs c = some (k', ok)) (hsched : k₀.sched = k.sched) :
    ok = true ∧ Acted strict k k' .schedules ∧ ∃ queues,
      k' = k₀.blocked r (Placed.waitingRecord k.sched r flags msecs) queues c := by
  obtain ⟨L, hplaced⟩ := h.placed_of_running hrun
  rw [← hsched] at hplaced hrun ⊢
  obtain ⟨queues, L', heq', hplaced'⟩ := System.waitThread_spec hplaced hrun hr hflags msecs c
  rw [heq'] at heq
  cases heq
  have hsame : (k₀.sched.setThread r
      (Placed.waitingRecord k₀.sched r flags msecs)).running = k.sched.running := by
    rw [Sched.setThread_running, hsched]
  exact ⟨rfl, .blocks hsame hplaced', queues, rfl⟩

lemma suspend_effect (heq : k.threadSuspend = some (k', outcome)) :
    outcome = .schedules ∧ Acted strict k k' outcome ∧ ∃ r queues, k.sched.running = some r ∧
      k' = k.blocked r { k.sched.storage r with state := .ready } queues (k.call r) := by
  obtain ⟨s, hs, hres⟩ := Option.map_eq_some_iff.mp heq
  cases hres
  cases hrun : k.sched.running with
  | none => simp [Sched.suspendThread, hrun] at hs
  | some r =>
    obtain ⟨L, hplaced⟩ := h.placed_of_running hrun
    obtain ⟨queues, L', heq', hplaced'⟩ := hplaced.suspendThread hrun
    rw [heq'] at hs
    cases hs
    exact ⟨rfl, .blocks rfl hplaced', r, queues, rfl, k.blocked_self _ _ _⟩

lemma maySuspend_effect
    (heq : k.threadMaySuspend = some (k', outcome)) :
    Effect k .threadMaySuspend k' outcome ∧ Acted strict k k' outcome := by
  unfold System.threadMaySuspend at heq
  split at heq
  · contradiction
  · obtain ⟨k₁, hupdate, hrest⟩ := Option.bind_eq_some_iff.mp heq
    obtain ⟨hrun₁, hsound₁, hsame⟩ := h.updateSchedule hupdate
    split at hrest
    · cases hrest
      refine ⟨.stayed hupdate, hrun₁, ?_, fun _ => hsame⟩
      rw [if_neg (by simp), ← hrun₁]
      exact hsound₁.placed
    · obtain ⟨rfl, hacted, r, queues, hrun, rfl⟩ := hsound₁.suspend_effect hrest
      exact ⟨.gaveWay hupdate hrun, hacted.running.trans hrun₁, hacted.placed,
        fun hout => absurd rfl hout⟩

lemma delay_effect (hcalling : k.Calling) {msecs : Nat}
    (heq : k.threadDelay msecs = some (k', outcome)) :
    Effect k (.threadDelay msecs) k' outcome ∧ Acted strict k k' outcome := by
  unfold System.threadDelay at heq
  split at heq
  · cases heq
    exact ⟨.unchanged (by simp), .same h rfl (by simp)⟩
  · obtain ⟨r, hrun, hr, -⟩ := hcalling
    obtain ⟨L, hplaced⟩ := h.placed_of_running hrun
    by_cases hr1 : r = 1
    · have htid : (k.sched.storage r).tid = THREAD_TID_TMRS := (h.live hrun).tid_eq.trans hr1
      have hfail : k.sched.delayThread msecs = some (k.sched, false) := by
        rw [Sched.delayThread, hrun]
        exact if_pos (.inr htid)
      rw [hfail] at heq
      contradiction
    · obtain ⟨queues, heq', hplaced'⟩ := hplaced.delayThread hrun hr hr1 msecs
      rw [heq'] at heq
      cases heq
      refine ⟨?_, .blocks rfl hplaced'⟩
      rw [k.blocked_self]
      exact .delayed hrun

lemma terminate_effect
    (heq : k.threadTerminate = some (k', outcome)) :
    Effect k .threadTerminate k' outcome ∧ Acted strict k k' outcome := by
  unfold System.threadTerminate at heq
  split at heq
  · contradiction
  · next r hrun =>
      obtain ⟨L, hplaced⟩ := h.placed_of_running hrun
      rw [(h.live hrun).tid_eq] at heq
      obtain ⟨k₁, hremove, hres⟩ := Option.map_eq_some_iff.mp heq
      cases hres
      have hstate := (h.runner r hrun).1
      obtain ⟨-, hidle, -, hcases⟩ := System.removeThread_cases hremove
      rcases hcases with ⟨-, queues, henq, rfl⟩ | ⟨hwait, -⟩ | ⟨hready, -⟩
      · obtain ⟨queues', L', henq', hplaced'⟩ := hplaced.exit hidle
        rw [henq'] at henq
        cases henq
        refine ⟨?_, .blocks rfl hplaced'⟩
        rw [k.blocked_self]
        exact .terminated hrun
      · rw [hstate] at hwait
        contradiction
      · rw [hstate] at hready
        contradiction

/-- The killed thread goes to the dead queue at once only if the scheduler has lost it. -/
lemma kill_effect (heq : k.threadKill tid = some (k', outcome)) :
    Effect k (.threadKill tid) k' outcome ∧
      (Spares strict k (.threadKill tid) → Acted strict k k' outcome) := by
  unfold System.threadKill at heq
  split at heq
  · cases heq
    exact ⟨.unchanged (by simp), fun _ => .same h rfl (by simp)⟩
  · next hself =>
      obtain ⟨k₁, hremove, hres⟩ := Option.map_eq_some_iff.mp heq
      cases hres
      have hother : k.sched.running ≠ some tid := fun hrun => hself (h.runningTid hrun).symm
      have hne : ∀ r ∈ k.sched.running, r ≠ tid := by
        rintro r hr rfl
        exact hother hr
      obtain ⟨L, hplaced⟩ := h.placed
      obtain ⟨hlive, hidle, -, hcases⟩ := System.removeThread_cases hremove
      rcases hcases with ⟨hstate, queues, henq, rfl⟩ | ⟨hstate, k₂, hcancel, rfl⟩ | ⟨hstate, rfl⟩
      · refine ⟨.killedLost hother hlive hidle hstate, fun _ => ?_⟩
        have hout : tid ∉ k.sched.running.toList :=
          fun hmem => hother (Option.mem_toList.mp hmem)
        have halso := hplaced.also hlive hout (hplaced.not_mem_of_running hstate)
        obtain ⟨queues', L', henq', hplaced'⟩ := halso.exit hidle
        rw [henq'] at henq
        cases henq
        refine ⟨rfl, ⟨L', hplaced'⟩, fun _ r hr => ?_⟩
        simp [hne r hr]
      · refine ⟨.killed hother hlive hidle hstate hcancel, fun hspares => ?_⟩
        obtain ⟨hmutex, hsleep⟩ := hspares hlive hstate
        have hsched := System.cancelWait_sched hmutex hcancel
        have hdelay : strict → tid ∉ L .delay :=
          fun hstrict hin => hsleep hstrict (hplaced.delayed hstrict tid hin)
        have hmark := hplaced.mark hlive hidle hdelay .none fun _ => rfl
        refine ⟨?_, ⟨L, ?_⟩, fun _ r hr => ?_⟩
        · dsimp only
          rw [Sched.setThread_running, hsched]
        · dsimp only
          rw [hsched]
          exact hmark
        · dsimp only
          rw [hsched]
          simp [hne r hr]
      · refine ⟨.killedReady hother hlive hidle hstate, fun _ => ?_⟩
        have hready : ∀ {w : ThreadState}, (k.sched.storage tid).state = w → w = .ready :=
          fun hw => hw.symm.trans hstate
        have hdelay : strict → tid ∉ L .delay := by
          intro _ hin
          have hwait := hready (hplaced.member _ tid hin).2.1
          contradiction
        have hmark := hplaced.mark hlive hidle hdelay (k.sched.storage tid).wait
          fun hwait => absurd (hready hwait) (by simp)
        refine ⟨rfl, ⟨L, hmark⟩, fun _ r hr => ?_⟩
        simp [hne r hr]

lemma create_effect {name : List UInt8} {prio : Nat}
    (heq : k.threadCreate name prio = some (k', outcome)) :
    Effect k (.threadCreate name prio) k' outcome ∧ Acted strict k k' outcome := by
  obtain ⟨L, hplaced⟩ := h.placed
  unfold System.threadCreate at heq
  split at heq
  · contradiction
  · next s newTid hinit =>
      rcases hplaced.initThread h.size hinit with ⟨rfl, rfl⟩ | ⟨hlt, hdead, rfl, hplaced'⟩
      · rw [if_pos rfl] at heq
        cases heq
        exact ⟨.unchanged (by simp), .same h rfl (by simp)⟩
      · rw [if_neg (Nat.ne_of_lt (Nat.lt_trans hlt h.size))] at heq
        obtain ⟨queues, L', hadd, hplaced''⟩ := hplaced'.addThread (by simp [Thread.fresh])
        rw [hadd] at heq
        cases heq
        refine ⟨.created hlt hdead, rfl, ⟨L', hplaced''⟩, fun _ r hr => ?_⟩
        have hne : r ≠ newTid := by
          rintro rfl
          exact hdead (h.live hr)
        simp [hne]

lemma lock_effect (hcalling : k.Calling) {m msecs : Nat}
    (heq : k.threadLockMutexTimed m msecs = some (k', outcome)) :
    Effect k (.lockMutex m msecs) k' outcome ∧ Acted strict k k' outcome := by
  obtain ⟨r, hrun, hr, -⟩ := hcalling
  unfold System.threadLockMutexTimed at heq
  split at heq
  · next hm =>
      have htid := (h.live hrun).tid_eq
      rw [hrun] at heq
      dsimp only at heq
      rw [htid] at heq
      split at heq
      · next hwaits =>
          obtain ⟨⟨k₁, ok⟩, hwait, hres⟩ := Option.map_eq_some_iff.mp heq
          have hflags : WaitFlags.MUTEX.events ≠ .none := by decide
          obtain ⟨rfl, hacted, queues, rfl⟩ := h.wait_effect hrun hr hflags hwait rfl
          cases hres
          have hheld : (k.mutex m).lockerTid ≠ THREAD_TID_INVALID := by
            simpa [Mutex.isLocked] using hwaits.2
          have hlock : (k.mutex m).lockMutex k.knows r =
              (((k.mutex m).lockMutex k.knows r).1, true) := by rw [← hwaits.1]
          exact ⟨.lockWaits hm hrun hr hheld hlock, hacted⟩
      · next hnot =>
          cases heq
          by_cases hfree : (k.mutex m).lockerTid = THREAD_TID_INVALID
          · have hlive : k.knows r = true := decide_eq_true (h.live hrun)
            rw [Mutex.lockMutex_free hlive hfree (Nat.ne_of_lt (h.live hrun).1)]
            exact ⟨.locked hm hrun hfree, .same h rfl (by simp)⟩
          · have hisLocked : (k.mutex m).isLocked = true := by simpa [Mutex.isLocked] using hfree
            have hrefused : ((k.mutex m).lockMutex k.knows r).2 = false := by
              rw [Bool.eq_false_iff]
              exact fun hok => hnot ⟨hok, hisLocked⟩
            have hsame : ((k.mutex m).lockMutex k.knows r).1 = k.mutex m :=
              Mutex.lockMutex_false (Prod.ext rfl hrefused)
            rw [hsame, Function.update_eq_self]
            exact ⟨.unchanged (by simp), .same h rfl (by simp)⟩
  · contradiction

end

lemma unlock_effect {m : Nat} (heq : k.threadUnlockMutex m = some (k', outcome)) :
    Effect k (.unlockMutex m) k' outcome := by
  unfold System.threadUnlockMutex at heq
  split at heq
  · next hm =>
      obtain ⟨⟨m', ok⟩, hunlock, hres⟩ := Option.map_eq_some_iff.mp heq
      dsimp only at hres
      split at hres
      · next hok =>
          cases hres
          rw [hok] at hunlock
          rw [Sched.resumeThread_eq]
          exact .unlocked hm hunlock
      · next hok =>
          cases hres
          have hsame : m' = k.mutex m := by
            rw [Bool.not_eq_true] at hok
            rw [hok] at hunlock
            exact Mutex.unlockMutex_false hunlock
          rw [hsame, Function.update_eq_self]
          exact .unchanged (by simp)
  · contradiction

lemma destroy_effect {m : Nat} (heq : k.threadDestroyMutex m = some (k', outcome)) :
    Effect k (.destroyMutex m) k' outcome := by
  unfold System.threadDestroyMutex at heq
  split at heq
  · next hm =>
      split at heq
      · cases heq
        exact .unchanged (by simp)
      · next hfree =>
          split at heq
          · cases heq
            exact .unchanged (by simp)
          · next hempty =>
              cases heq
              exact .mutexDestroyed hm (by simpa using hfree) (by simpa using hempty)
  · contradiction

lemma queueDone_effect {q : Nat} (heq : k.eventDoneQueue q = some (k', outcome)) :
    Effect k (.eventDoneQueue q) k' outcome := by
  unfold System.eventDoneQueue at heq
  split at heq
  · next hq =>
      cases heq
      exact .queueDone hq
  · contradiction

lemma watch_effect {q : Nat} (heq : k.eventWatchQueue q = some (k', outcome)) :
    Effect k (.eventWatchQueue q) k' outcome := by
  unfold System.eventWatchQueue at heq
  split at heq
  · next hq =>
      split at heq
      · cases heq
        exact .unchanged (by simp)
      · next hfree =>
          cases heq
          exact .watched hq (Decidable.not_not.mp hfree)
  · contradiction

lemma put_effect {q event : Nat} (heq : k.eventPut q event = some (k', outcome)) :
    Effect k (.eventPut q event) k' outcome := by
  unfold System.eventPut at heq
  split at heq
  · next hq =>
      cases heq
      exact .put hq
  · contradiction

lemma get_effect {q : Nat} (heq : k.eventGet q = some (k', outcome)) :
    Effect k (.eventGet q) k' outcome := by
  unfold System.eventGet at heq
  split at heq
  · next hq =>
      cases heq
      exact .got hq
  · contradiction

lemma eventWait_effect (h : Sound strict k) (hcalling : k.Calling) {q msecs : Nat}
    (heq : k.waitForEventsTimed q msecs = some (k', outcome)) :
    Effect k (.waitForEvents q msecs) k' outcome ∧ Acted strict k k' outcome := by
  obtain ⟨r, hrun, hr, -⟩ := hcalling
  unfold System.waitForEventsTimed at heq
  split at heq
  · next hq =>
      have htid := (h.live hrun).tid_eq
      rw [hrun] at heq
      dsimp only at heq
      rw [htid] at heq
      split at heq
      · cases heq
        exact ⟨.unchanged (by simp), .same h rfl (by simp)⟩
      · next hwatch =>
          split at heq
          · cases heq
            exact ⟨.unchanged (by simp), .same h rfl (by simp)⟩
          · next hempty =>
              obtain ⟨⟨k₁, ok⟩, hwait, hres⟩ := Option.map_eq_some_iff.mp heq
              have hflags : WaitFlags.EVENT.events ≠ .none := by decide
              obtain ⟨rfl, hacted, queues, rfl⟩ := h.wait_effect hrun hr hflags hwait rfl
              cases hres
              exact ⟨.eventWaits hq hrun hr (Decidable.not_not.mp hwatch)
                (Decidable.not_not.mp hempty), hacted.congr rfl⟩
  · contradiction

lemma barrierDone_effect {b : Nat} (heq : k.barrierDone b = some (k', outcome)) :
    Effect k (.barrierDone b) k' outcome := by
  unfold System.barrierDone at heq
  split at heq
  · next hb =>
      cases heq
      exact .barrierDone hb
  · contradiction

lemma barrierOpen_effect {b : Nat} (heq : k.barrierOpen b = some (k', outcome)) :
    Effect k (.barrierOpen b) k' outcome := by
  unfold System.barrierOpen System.barrierSet at heq
  split at heq
  · next hb =>
      cases heq
      exact .barrierOpened hb
  · contradiction

lemma barrierClose_effect {b : Nat} (heq : k.barrierClose b = some (k', outcome)) :
    Effect k (.barrierClose b) k' outcome := by
  unfold System.barrierClose System.barrierSet at heq
  split at heq
  · next hb =>
      cases heq
      exact .barrierClosed hb
  · contradiction

lemma barrierWait_effect (h : Sound strict k) (hcalling : k.Calling) {b : Nat}
    (heq : k.waitForBarrier b = some (k', outcome)) :
    Effect k (.waitForBarrier b) k' outcome ∧ Acted strict k k' outcome := by
  obtain ⟨r, hrun, hr, -⟩ := hcalling
  unfold System.waitForBarrier at heq
  split at heq
  · next hb =>
      split at heq
      · cases heq
        exact ⟨.unchanged (by simp), .same h rfl (by simp)⟩
      · next hclosed =>
          rw [h.runningTid hrun] at heq
          obtain ⟨⟨k₁, ok⟩, hwait, hres⟩ := Option.map_eq_some_iff.mp heq
          have hflags : WaitFlags.BARRIER.events ≠ .none := by decide
          obtain ⟨rfl, hacted, queues, rfl⟩ := h.wait_effect hrun hr hflags hwait rfl
          cases hres
          exact ⟨.barrierWaits hb hrun hr (by simpa using hclosed), hacted⟩
  · contradiction

lemma ioWait_effect (h : Sound strict k) (hcalling : k.Calling) {w a msecs : Nat}
    (hnew : k.item a = none) (heq : k.threadIoWait w a msecs = some (k', outcome)) :
    Effect k (.ioWait w a msecs) k' outcome ∧ Acted strict k k' outcome := by
  obtain ⟨r, hrun, hr, -⟩ := hcalling
  unfold System.threadIoWait at heq
  rw [h.runningTid hrun] at heq
  obtain ⟨⟨k₁, ok⟩, hwait, hres⟩ := Option.map_eq_some_iff.mp heq
  have hflags : WaitFlags.COMPLETION.events ≠ .none := by decide
  obtain ⟨rfl, hacted, queues, rfl⟩ := h.wait_effect hrun hr hflags hwait rfl
  cases hres
  exact ⟨.ioWaits hrun hr hnew, hacted⟩

lemma poll_effect (h : Sound strict k) (hcalling : k.Calling) {table : Nat}
    {fds : List (Option PollAnswer)} {timeout : Int} {again : List (Option (Option Bool))}
    (heq : k.poll table fds timeout again = some (k', outcome)) :
    Effect k (.poll table fds timeout again) k' outcome ∧ Acted strict k k' outcome := by
  obtain ⟨r, hrun, hr, -⟩ := hcalling
  unfold System.poll at heq
  split at heq
  · cases heq
    exact ⟨.unchanged (by simp), .same h rfl (by simp)⟩
  · have hsched := System.pollFirst_sched table fds (k.withTable table)
    rw [System.withTable] at hsched
    dsimp only at heq
    split at heq
    · next k₁ hfirst =>
        obtain ⟨k₂, hclean, hres⟩ := Option.map_eq_some_iff.mp heq
        cases hres
        have hsame : k₁.sched = k.sched := by rw [hfirst] at hsched; exact hsched
        refine ⟨.pollFailed hfirst hclean, ?_⟩
        obtain ⟨_, _, rfl⟩ := System.cleanup_shape hclean
        exact .same h hsame (by simp)
    · next k₁ hfirst =>
        rw [hfirst] at hsched
        split at heq
        · next hblock =>
            obtain ⟨⟨k₂, ok⟩, hwait, hrest⟩ := Option.bind_eq_some_iff.mp heq
            have hflags : WaitFlags.COMPLETION.events ≠ .none := by decide
            obtain ⟨rfl, hacted, queues, rfl⟩ := h.wait_effect hrun hr hflags hwait hsched
            cases hrest
            exact ⟨.pollWaits hrun hr hfirst hblock.1 hblock.2, hacted⟩
        · obtain ⟨hout, hclean⟩ := System.pollEnd_shape heq
          refine ⟨.polled hfirst hclean hout, ?_⟩
          obtain ⟨_, _, rfl⟩ := System.cleanup_shape hclean
          exact .same h hsched hout

lemma finish_effect {again : List (Option (Option Bool))}
    (heq : k.finish again = some (k', outcome)) : Effect k (.finish again) k' outcome := by
  unfold System.finish at heq
  split at heq
  · contradiction
  · next r hrun =>
      split at heq
      · contradiction
      · next m msecs hcall =>
          have hne : k.call r ≠ .none := by simp [hcall]
          have hpoll : ∀ table, k.call r ≠ .poll table := by simp [hcall]
          split at heq
          · cases heq
            exact .finished hrun hne hpoll
          · split at heq
            · cases heq
              exact .finished hrun hne hpoll
            · contradiction
      · next q msecs hcall =>
          split at heq
          · cases heq
            exact .finished hrun (by simp [hcall]) (by simp [hcall])
          · contradiction
      · next b hcall =>
          cases heq
          exact .finished hrun (by simp [hcall]) (by simp [hcall])
      · next w msecs hcall =>
          cases heq
          exact .finished hrun (by simp [hcall]) (by simp [hcall])
      · next table hcall =>
          obtain ⟨hout, hclean⟩ := System.pollEnd_shape heq
          exact .pollFinished hrun hcall hclean hout

variable (h : Sound strict k)
include h

/-- The actions do what the list says. -/
theorem effect {a : Action} (hallowed : k.Allowed a)
    (heq : k.act a = some (k', outcome)) : Effect k a k' outcome := by
  cases a with
  | kernelRun =>
    cases heq
    exact .kernelRun hallowed
  | threadCreate name prio => exact (h.create_effect heq).1
  | threadSuspend =>
    obtain ⟨rfl, -, r, queues, hrun, rfl⟩ := h.suspend_effect heq
    exact .suspended hrun
  | threadMaySuspend => exact (h.maySuspend_effect heq).1
  | threadDelay msecs => exact (h.delay_effect hallowed heq).1
  | threadTerminate => exact (h.terminate_effect heq).1
  | threadKill tid => exact (h.kill_effect heq).1
  | createMutex m =>
    cases heq
    exact .mutexCreated hallowed.2
  | lockMutex m msecs => exact (h.lock_effect hallowed heq).1
  | unlockMutex m => exact unlock_effect heq
  | destroyMutex m => exact destroy_effect heq
  | eventInitQueue q =>
    cases heq
    exact .queueCreated hallowed.2
  | eventDoneQueue q => exact queueDone_effect heq
  | eventWatchQueue q => exact watch_effect heq
  | eventPut q event => exact put_effect heq
  | eventGet q => exact get_effect heq
  | waitForEvents q msecs => exact (h.eventWait_effect hallowed heq).1
  | barrierCreate b autoclose =>
    cases heq
    exact .barrierCreated hallowed.2
  | barrierDone b => exact barrierDone_effect heq
  | barrierOpen b => exact barrierOpen_effect heq
  | barrierClose b => exact barrierClose_effect heq
  | waitForBarrier b => exact (h.barrierWait_effect hallowed heq).1
  | ioWaitInit w =>
    cases heq
    exact .waitQueueAdded
  | ioWait w a msecs => exact (h.ioWait_effect hallowed.1 hallowed.2 heq).1
  | ioResume w =>
    obtain ⟨k₁, hresume, hres⟩ := Option.map_eq_some_iff.mp heq
    cases hres
    exact .ioResumed hresume
  | poll table fds timeout again => exact (h.poll_effect hallowed.1 heq).1
  | finish again => exact finish_effect heq
  | tick now =>
    cases heq
    exact .ticked hallowed

/-- Who is resumed does not run. -/
lemma acted_wakeAll {flags : WaitFlags} (hflags : flags.timeout = false)
    {T : Nat → Bool} (hsched : k'.sched = k.sched.wakeAll flags T) (hout : outcome ≠ .schedules) :
    Acted strict k k' outcome := by
  refine ⟨by rw [hsched]; rfl, ?_, fun _ r hr => ?_⟩
  · rw [if_neg hout, hsched]
    obtain ⟨L, hplaced⟩ := h.placed
    exact ⟨L, hplaced.wakeAll hflags T⟩
  · rw [hsched]
    apply Sched.wakeAll_of_ne_waiting
    simp [(h.runner r hr).1]

/-- Up to the call of `schedule_thread` every action keeps the places. -/
theorem act {a : Action} (hallowed : k.Allowed a)
    (hspares : Spares strict k a) (heq : k.act a = some (k', outcome)) :
    Acted strict k k' outcome := by
  have heffect := h.effect hallowed heq
  cases a with
  | kernelRun =>
    cases heq
    obtain ⟨L, hplaced⟩ := h.placed
    rw [show k.sched.running = none from hallowed] at hplaced
    exact .blocks rfl hplaced
  | threadCreate name prio => exact (h.create_effect heq).2
  | threadSuspend => exact (h.suspend_effect heq).2.1
  | threadMaySuspend => exact (h.maySuspend_effect heq).2
  | threadDelay msecs => exact (h.delay_effect hallowed heq).2
  | threadTerminate => exact (h.terminate_effect heq).2
  | threadKill tid => exact (h.kill_effect heq).2 hspares
  | lockMutex m msecs => exact (h.lock_effect hallowed heq).2
  | waitForEvents q msecs => exact (h.eventWait_effect hallowed heq).2
  | waitForBarrier b => exact (h.barrierWait_effect hallowed heq).2
  | ioWait w a msecs => exact (h.ioWait_effect hallowed.1 hallowed.2 heq).2
  | poll table fds timeout again => exact (h.poll_effect hallowed.1 heq).2
  | unlockMutex m =>
    cases heffect with
    | unchanged hout => exact .same h rfl hout
    | unlocked => exact h.acted_wakeAll rfl rfl (by simp)
  | barrierDone b =>
    cases heffect with
    | unchanged hout => exact .same h rfl hout
    | barrierDone =>
      obtain ⟨T, bar, hbar, -⟩ := System.resumeOnBarriers_eq k.barriers k
      rw [hbar]
      exact h.acted_wakeAll rfl rfl (by simp)
  | ioResume w =>
    cases heffect with
    | unchanged hout => exact .same h rfl hout
    | ioResumed hresume =>
      obtain ⟨_, _, _, _, _, rfl⟩ := System.resumeItems_shape _ hresume
      exact .same h rfl (by simp)
  | finish again =>
    cases heffect with
    | unchanged hout => exact .same h rfl hout
    | finished => exact .same h rfl (by simp)
    | pollFinished hrun hcall hclean hout =>
      obtain ⟨_, _, rfl⟩ := System.cleanup_shape hclean
      exact .same h rfl hout
  | tick now =>
    cases heffect with
    | unchanged hout => exact .same h rfl hout
    | ticked =>
      obtain ⟨L, hplaced⟩ := h.placed
      exact ⟨rfl, ⟨L, hplaced.congr rfl rfl⟩, fun _ _ _ => rfl⟩
  | _ =>
    cases heffect with
    | unchanged hout => exact .same h rfl hout
    | _ => exact .same h rfl (by simp)

/-- A call of `schedule_thread` ends what an action began. -/
theorem exec {a : Action} (hallowed : k.Allowed a)
    (hspares : Spares strict k a) (heq : k.exec a = some k') : Sound strict k' := by
  obtain ⟨⟨k₁, outcome⟩, hact, hrest⟩ := Option.bind_eq_some_iff.mp heq
  have hacted := h.act hallowed hspares hact
  obtain ⟨L, hplaced⟩ := hacted.placed
  dsimp only at hrest
  split at hrest
  · next hout =>
      rw [if_pos hout] at hplaced
      obtain ⟨s, r, L', hsched, hrun, -, hplaced', hstate, hterm⟩ :=
        System.scheduleThread_spec hplaced
      rw [hsched] at hrest
      cases hrest
      refine ⟨h.size, ⟨L', ?_⟩, ?_⟩
      · dsimp only
        rw [hrun]
        exact hplaced'
      · dsimp only
        rintro r' hr'
        obtain rfl : r = r' := Option.some.inj (hrun.symm.trans hr')
        exact ⟨hstate, hterm⟩
  · next hout =>
      rw [if_neg hout] at hplaced
      cases hrest
      refine ⟨h.size, ⟨L, ?_⟩, ?_⟩
      · rw [hacted.running]
        exact hplaced
      · rw [hacted.running]
        intro r hr
        rw [hacted.runner hout r hr]
        exact h.runner r hr

end Sound

end DiegOS.Kernel
