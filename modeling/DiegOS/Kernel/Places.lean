import DiegOS.Kernel.Effects

/-!
# Every thread in its place

The places of the threads over whole runs of the kernel, from its start on.

Main results:

- Theorem `everyone_in_place`: every thread runs or is in one queue that goes with its
  state, as long as no thread that only waits for a mutex and no sleeping thread is killed.
- Theorem `kill_misplaces`: what goes wrong otherwise.
- Theorem `runner_is_right`: who runs after a call of `schedule_thread`.
-/

namespace DiegOS.Kernel

open Lib

variable {N : Nat}

/-! ## The start -/

/-- One of the threads of `kernel_threads_init`. -/
lemma Placed.addFirst {strict : Prop} {s s' : Sched N} {out : List Nat}
    {L : Place → List Nat} (h : Placed strict s out L) (hN : N < THREAD_TID_INVALID)
    {name : List UInt8} {prio tid : Nat} (htid : tid ≠ THREAD_TID_INVALID)
    (heq : s.addFirst name prio tid = some s') :
    s'.running = s.running ∧ ∃ L', Placed strict s' out L' := by
  unfold Sched.addFirst at heq
  split at heq
  · contradiction
  · next s₁ newTid hinit =>
      split at heq
      · contradiction
      · next hne =>
          obtain rfl : newTid = tid := Decidable.not_not.mp hne
          rcases h.initThread hN hinit with ⟨hinvalid, -⟩ | ⟨-, -, rfl, hplaced⟩
          · exact absurd hinvalid htid
          · obtain ⟨queues, L', hadd, hplaced'⟩ := hplaced.addThread (by simp [Thread.fresh])
            rw [hadd] at heq
            cases heq
            exact ⟨rfl, L', hplaced'⟩

/-- The idle thread is the first one. -/
lemma Placed.idleFirst {strict : Prop} {s : Sched N} (hN : 0 < N)
    (hunused : ∀ t, s.storage t = .unused) (hqueues : s.queues.Holds fun _ => [])
    (name : List UInt8) :
    Placed strict (s.setThread 0 (.fresh name THREAD_PRIO_IDLE 0)) [0] fun _ => [] := by
  have hself : (s.setThread 0 (.fresh name THREAD_PRIO_IDLE 0)).storage 0 =
      .fresh name THREAD_PRIO_IDLE 0 := by simp
  have hother : ∀ t, t ≠ 0 →
      (s.setThread 0 (.fresh name THREAD_PRIO_IDLE 0)).storage t = .unused := by
    intro t ht
    simp [ht, hunused]
  have hlive : ∀ t, (s.setThread 0 (.fresh name THREAD_PRIO_IDLE 0)).Live t ↔ t = 0 := by
    intro t
    by_cases ht : t = 0
    · subst ht
      simp [Sched.Live, Thread.fresh, hN, THREAD_TID_INVALID]
    · refine ⟨fun h => ?_, fun h => absurd h ht⟩
      have htid := h.tid_eq
      rw [hother t ht] at htid
      exact absurd htid (Nat.ne_of_gt h.1)
  refine ⟨hqueues, fun t _ hdead => ?_, by simp, fun t ht => ?_, by simp, fun t ht hout => ?_,
    fun t ht => ?_, .inl (by simp), ?_, ?_, fun _ t ht => ?_, by simp, by simp⟩
  · exact hother t fun ht => hdead ((hlive t).mpr ht)
  · exact ⟨(hlive t).mpr (by simpa using ht), by simp⟩
  · exact absurd (by simpa using (hlive t).mp ht) hout
  · rw [(hlive t).mp ht, hself]
    exact Nat.lt_succ_self 3
  · rw [hself]
    rfl
  · rw [hself]
    rfl
  · exact .inl (by simpa using (hlive t).mp ht)

/-- The kernel starts with all threads in their places. -/
lemma Sound.start {strict : Prop} {k : System N} (hboot : boot N = some k) :
    Sound strict k ∧ k.sched.running = none := by
  obtain ⟨s₀, hlib, hrest⟩ := Option.bind_eq_some_iff.mp hboot
  obtain ⟨s₂, hthreads, rfl⟩ := Option.map_eq_some_iff.mp hrest
  obtain ⟨s₁, hidle, htimers⟩ := Option.bind_eq_some_iff.mp hthreads
  unfold initThreadLib at hlib
  split at hlib
  · contradiction
  · next hN =>
      have hsize : N < THREAD_TID_INVALID := Nat.lt_of_not_le hN
      obtain ⟨hunused, hqueues, hrun₀⟩ : (∀ t, s₀.storage t = .unused) ∧
          (s₀.queues.Holds fun _ => []) ∧ s₀.running = none := by
        cases hlib
        exact ⟨fun _ => rfl, .empty _, rfl⟩
      obtain ⟨hrun₁, L₁, hplaced₁⟩ : s₁.running = none ∧ ∃ L, Placed strict s₁ [] L := by
        unfold Sched.addFirst at hidle
        split at hidle
        · contradiction
        · next s newTid hinit =>
            split at hidle
            · contradiction
            · next hne =>
                obtain rfl : newTid = THREAD_TID_IDLE := Decidable.not_not.mp hne
                rcases Sched.initThread_cases (fun t _ _ => hunused t) hinit with
                  ⟨hinvalid, -⟩ | ⟨hlt, -, -, rfl⟩
                · contradiction
                · have hfirst : Placed strict { s₀.setThread 0 (.fresh _ THREAD_PRIO_IDLE 0) with
                      threadNum := s₀.threadNum + 1 } [0] _ :=
                    (Placed.idleFirst hlt hunused hqueues [0x49, 0x64, 0x6c, 0x65]).congr rfl rfl
                  obtain ⟨queues, L', hadd, hplaced⟩ := hfirst.addThread (by simp [Thread.fresh])
                  rw [show THREAD_TID_IDLE = 0 from rfl, hadd] at hidle
                  cases hidle
                  exact ⟨hrun₀, L', hplaced⟩
      obtain ⟨hrun₂, L₂, hplaced₂⟩ := hplaced₁.addFirst hsize (by decide) htimers
      have hrun : s₂.running = none := hrun₂.trans hrun₁
      refine ⟨⟨hsize, ⟨L₂, ?_⟩, fun r hr => ?_⟩, hrun⟩
      · dsimp only
        rw [hrun]
        exact hplaced₂
      · dsimp only at hr
        rw [hrun] at hr
        contradiction

/-- A checked list of actions from the start of the kernel. -/
def started (N : Nat) (ok : System N → Action → Prop) [∀ k a, Decidable (ok k a)]
    (l : List Action) : Option (System N) :=
  (boot N).bind (checkedRun System.exec ok l)

/-- A checked list of actions under observation is a run. -/
lemma exists_observed {σ : Type} (exec : σ → Action → Option σ) (start : System N → σ)
    (ok : σ → Action → Prop) [∀ x a, Decidable (ok x a)] (l : List Action) {P : σ → Prop}
    (h : ∃ x ∈ (boot N).bind fun k => checkedRun exec ok l (start k), P x) :
    ∃ (k₀ : System N) (x : σ), boot N = some k₀ ∧ PartialRuns exec ok (start k₀) x ∧ P x := by
  obtain ⟨x, hx, hP⟩ := h
  obtain ⟨k₀, hboot, hcheck⟩ := Option.bind_eq_some_iff.mp hx
  exact ⟨k₀, x, hboot, PartialRuns.of_checkedRun l (PartialRuns.refl _) hcheck, hP⟩

/-- A checked list of actions is a run. -/
lemma exists_run (ok : System N → Action → Prop) [∀ k a, Decidable (ok k a)] (l : List Action)
    {P : System N → Prop} (h : ∃ k ∈ started N ok l, P k) :
    ∃ k₀ k : System N, boot N = some k₀ ∧ PartialRuns System.exec ok k₀ k ∧ P k :=
  exists_observed System.exec id ok l h

/-- The places are kept over whole runs. -/
lemma Sound.runs {strict : Prop} {k₀ k : System N} (hboot : boot N = some k₀)
    (hrun : PartialRuns System.exec (fun k a => k.Allowed a ∧ Spares strict k a) k₀ k) :
    Sound strict k :=
  hrun.invariant (fun _ _ _ hsound hok hexec => hsound.exec hok.1 hok.2 hexec)
    (Sound.start hboot).1

/-! ## Every thread in one place -/

/-- Counters, heads, tails and links describe lists that share nothing; a live thread runs and
is in no list, or is once in one list that goes with its state. -/
def InPlace (k : System N) : Prop :=
  ∃ L : Place → List Nat, k.sched.queues.Holds L ∧ ∀ t, k.sched.Live t →
    (k.sched.running = some t ∧ (k.sched.storage t).state = .running ∧ ∀ q, t ∉ L q) ∨
    (k.sched.running ≠ some t ∧
      ∃ q, t ∈ L q ∧ q.Fits (k.sched.storage t) ∧ ∀ q', t ∈ L q' → q' = q)

lemma Sound.inPlace {k : System N} (h : Sound True k) : InPlace k := by
  obtain ⟨L, hplaced⟩ := h.placed
  refine ⟨L, hplaced.holds, fun t hlive => ?_⟩
  by_cases hrun : k.sched.running = some t
  · refine .inl ⟨hrun, (h.runner t hrun).1, ?_⟩
    exact (hplaced.outside t (by simp [hrun])).2
  · have hout : t ∉ k.sched.running.toList := by simpa using hrun
    obtain ⟨q, hq⟩ := (hplaced.everyone trivial t hlive).resolve_left hout
    refine .inr ⟨hrun, q, hq, (hplaced.member q t hq).2, fun q' hq' => ?_⟩
    by_contra hne
    exact hplaced.holds.not_mem hq hne hq'

/-- Every thread is in its place in every state that is reached without a kill of a thread that
only waits for a mutex or only sleeps. -/
theorem everyone_in_place {k₀ k : System N} (hboot : boot N = some k₀)
    (hrun : PartialRuns System.exec (fun k a => k.Allowed a ∧ Spares True k a) k₀ k) :
    InPlace k :=
  (Sound.runs hboot hrun).inPlace

/-- Two threads of one priority; the timers thread waits for its barrier. -/
def twoThreads : List Action :=
  [.threadCreate [65] 1, .threadCreate [66] 1, .kernelRun, .barrierCreate 5 true,
    .waitForBarrier 5]

/-- A thread that waits for events with a time-out is killed and released. -/
def killsWatcher : List Action :=
  twoThreads ++ [.eventInitQueue 6, .eventWatchQueue 6, .waitForEvents 6 5, .threadKill 2,
    .tick 9, .threadSuspend]

theorem everyone_in_place_watcher : ∃ k₀ k : System 4, boot 4 = some k₀ ∧
    PartialRuns System.exec (fun k a => k.Allowed a ∧ Spares True k a) k₀ k ∧
    k.sched.running = some 3 ∧ ¬k.sched.Live 2 ∧ InPlace k := by
  obtain ⟨k₀, k, hboot, hrun, hlast⟩ := exists_run (N := 4)
    (fun k a => k.Allowed a ∧ Spares True k a) killsWatcher
    (P := fun k => k.sched.running = some 3 ∧ ¬k.sched.Live 2) (by decide)
  exact ⟨k₀, k, hboot, hrun, hlast.1, hlast.2, everyone_in_place hboot hrun⟩

/-- A thread that waits for a mutex without a time-out is killed. -/
def killsLocker : List Action :=
  twoThreads ++ [.createMutex 7, .lockMutex 7 0, .threadSuspend, .lockMutex 7 0, .threadKill 3]

/-- A sleeping thread is killed, and its time comes. -/
def killsSleeper : List Action :=
  twoThreads ++ [.threadDelay 5, .threadKill 2, .tick 9, .threadSuspend]

/-- The killed thread is in the wait queue and in the dead queue, or in no queue at all. -/
theorem kill_misplaces :
    (∃ k₀ k : System 4, boot 4 = some k₀ ∧ PartialRuns System.exec System.Allowed k₀ k ∧
      3 ∈ k.sched.queues.toList .wait ∧ 3 ∈ k.sched.queues.toList .dead ∧ ¬InPlace k) ∧
    ∃ k₀ k : System 4, boot 4 = some k₀ ∧ PartialRuns System.exec System.Allowed k₀ k ∧
      k.sched.Live 2 ∧ ¬InPlace k := by
  constructor
  · obtain ⟨k₀, k, hboot, hrun, hwait, hdead⟩ := exists_run (N := 4) System.Allowed
      killsLocker (P := fun k => 3 ∈ k.sched.queues.toList .wait ∧ 3 ∈ k.sched.queues.toList .dead)
      (by decide)
    refine ⟨k₀, k, hboot, hrun, hwait, hdead, ?_⟩
    rintro ⟨L, hholds, -⟩
    rw [hholds.toList] at hwait hdead
    exact hholds.not_mem hwait (by simp) hdead
  · obtain ⟨k₀, k, hboot, hrun, hlive, hother, hstate, hlists⟩ := exists_run (N := 4)
      System.Allowed killsSleeper
      (P := fun k => k.sched.Live 2 ∧ k.sched.running ≠ some 2 ∧
        (k.sched.storage 2).state = .waiting ∧
        2 ∉ k.sched.queues.toList .wait ∧ 2 ∉ k.sched.queues.toList .delay)
      (by decide)
    refine ⟨k₀, k, hboot, hrun, hlive, ?_⟩
    rintro ⟨L, hholds, hall⟩
    rw [hholds.toList, hholds.toList] at hlists
    rcases hall 2 hlive with ⟨hrunning, -⟩ | ⟨-, q, hq, hfit, -⟩
    · exact hother hrunning
    · cases q with
      | ready prio => simp [Place.Fits, hstate] at hfit
      | wait => exact hlists.1 hq
      | delay => exact hlists.2 hq
      | dead => simp [Place.Fits, hstate] at hfit

/-! ## The runner -/

/-- The queues hold lists. -/
def Consistent (k : System N) : Prop := ∃ L : Place → List Nat, k.sched.queues.Holds L

/-- The kill of a thread that only waits for a mutex breaks the links. -/
lemma Sound.spares {k : System N} (h : Sound False k) {a : Action}
    (hcons : ∀ k' ∈ k.exec a, Consistent k') {k' : System N} (hexec : k.exec a = some k') :
    Spares False k a := by
  cases a with
  | threadKill tid =>
    intro hlive hstate
    refine ⟨fun hmutex => ?_, False.elim⟩
    obtain ⟨L', hholds'⟩ := hcons k' hexec
    obtain ⟨L, hplaced⟩ := h.placed
    obtain ⟨⟨k₁, outcome⟩, hact, hrest⟩ := Option.bind_eq_some_iff.mp hexec
    have hnotRunning : ∀ r, k.sched.running = some r → r ≠ tid := by
      rintro r hrun rfl
      rw [(h.runner r hrun).1] at hstate
      contradiction
    have hother : tid ≠ k.sched.runningTid := by
      cases hrun : k.sched.running with
      | none =>
        rw [Sched.runningTid, hrun]
        exact Nat.ne_of_lt hlive.1
      | some r =>
        rw [h.runningTid hrun]
        exact Ne.symm (hnotRunning r hrun)
    change k.threadKill tid = some (k₁, outcome) at hact
    unfold System.threadKill at hact
    rw [if_neg hother] at hact
    obtain ⟨k₂, hremove, hres⟩ := Option.map_eq_some_iff.mp hact
    cases hres
    obtain ⟨-, -, -, hcases⟩ := System.removeThread_cases hremove
    rcases hcases with ⟨hrunning, -⟩ | ⟨-, k₃, hcancel, rfl⟩ | ⟨hready, -⟩
    · rw [hstate] at hrunning
      contradiction
    · obtain ⟨queues, henq, hqueues⟩ := System.cancelWait_mutex hmutex hcancel
      have hin : tid ∈ L .wait := by
        refine (hplaced.waits tid hlive ?_ hstate).resolve_right ?_
        · intro hmem
          exact hnotRunning tid (Option.mem_toList.mp hmem) rfl
        · rw [hmutex]
          decide
      obtain rfl : k₃.setSched _ = k' := Option.some.inj hrest
      change k₃.sched.queues.Holds L' at hholds'
      rw [hqueues] at hholds'
      exact hplaced.holds.not_enqueue hin (by simp) henq hholds'
    · rw [hstate] at hready
      contradiction
  | _ => trivial

/-- The threads of the ready queues, by priority and then by age. -/
def readyList (s : Sched N) : List Nat :=
  (List.range THREAD_PRIORITIES).flatMap fun i => s.queues.toList (.ready i)

/-- While the links are consistent, `schedule_thread` always finds a runner, and this is
the first ready thread that is not to be terminated; it is in no queue.  The idle thread runs
or is ready. -/
theorem runner_is_right {k₀ k : System N} (hboot : boot N = some k₀)
    (hrun : PartialRuns System.exec
      (fun k a => k.Allowed a ∧ ∀ k' ∈ k.exec a, Consistent k') k₀ k) :
    (k.sched.running = some THREAD_TID_IDLE ∨
      THREAD_TID_IDLE ∈ k.sched.queues.toList (.ready THREAD_PRIO_IDLE)) ∧
    ∀ a k₁, k.Allowed a → k.act a = some (k₁, .schedules) →
      ∃ k₂ s r, k₁.updateSchedule = some k₂ ∧ k₂.sched.pickThread = some s ∧
        k.exec a = some (k₂.setSched s) ∧
        Placed.firstLasting k₂.sched (readyList k₂.sched) = some r ∧ s.running = some r ∧
          (s.storage r).state = .running ∧ (s.storage r).terminate = false ∧
        ∀ q, r ∉ s.queues.toList q := by
  have hsound : Sound False k := by
    refine hrun.invariant (fun k a k' hsound hok hexec => ?_) (Sound.start hboot).1
    exact hsound.exec hok.1 (hsound.spares hok.2 hexec) hexec
  obtain ⟨L, hplaced⟩ := hsound.placed
  constructor
  · rw [hplaced.holds.toList]
    refine hplaced.idle.imp_left fun hout => ?_
    exact Option.mem_toList.mp hout
  · intro a k₁ hallowed hact
    have hspares : Spares False k a := by
      cases a with
      | threadKill tid =>
        change k.threadKill tid = _ at hact
        unfold System.threadKill at hact
        split at hact
        · simp at hact
        · obtain ⟨k₂, -, hres⟩ := Option.map_eq_some_iff.mp hact
          simp at hres
      | _ => trivial
    obtain ⟨L₁, hplaced₁⟩ := (hsound.act hallowed hspares hact).placed
    rw [if_pos rfl] at hplaced₁
    obtain ⟨s₂, L₂, hupdate, -, -, -, hplaced₂⟩ := System.updateSchedule_spec hplaced₁
    obtain ⟨s₃, r, L₃, hpick, hfirst, hrunning, -, hplaced₃, -, hstate, hterm⟩ :=
      hplaced₂.pickThread
    refine ⟨_, s₃, r, hupdate, hpick, ?_, ?_, hrunning, hstate, hterm, fun q => ?_⟩
    · unfold System.exec
      rw [hact, Option.bind_some]
      dsimp only
      rw [if_pos rfl, System.scheduleThread, hupdate, Option.bind_some]
      rw [hpick]
      rfl
    · unfold readyList
      simp only [hplaced₂.holds.toList]
      exact hfirst
    · rw [hplaced₃.holds.toList]
      exact (hplaced₃.outside r (by simp)).2 q

/-- Runs without the kills that go wrong have consistent links. -/
lemma Sound.consistent_runs {k₀ k : System N} (hboot : boot N = some k₀)
    (hrun : PartialRuns System.exec (fun k a => k.Allowed a ∧ Spares False k a) k₀ k) :
    PartialRuns System.exec (fun k a => k.Allowed a ∧ ∀ k' ∈ k.exec a, Consistent k') k₀ k := by
  have hboth : Sound False k ∧ PartialRuns System.exec
      (fun k a => k.Allowed a ∧ ∀ k' ∈ k.exec a, Consistent k') k₀ k := by
    refine hrun.invariant (P := fun k => Sound False k ∧ PartialRuns System.exec
      (fun k a => k.Allowed a ∧ ∀ k' ∈ k.exec a, Consistent k') k₀ k) ?_
      ⟨(Sound.start hboot).1, PartialRuns.refl k₀⟩
    rintro k a k' ⟨hsound, hruns⟩ ⟨hallowed, hspares⟩ hexec
    have hcons : ∀ k' ∈ k.exec a, Consistent k' := by
      intro k₁ hk₁
      obtain ⟨L, hplaced⟩ := (hsound.exec hallowed hspares hk₁).placed
      exact ⟨L, hplaced.holds⟩
    exact ⟨hsound.exec hallowed hspares hexec, hruns.tail ⟨hallowed, hcons⟩ hexec⟩
  exact hboth.2

/-- The first of two threads of one priority is killed, and the second one runs. -/
theorem runner_is_right_second : ∃ k₁ k₂ : System 4, ∃ s r, k₁.updateSchedule = some k₂ ∧
    k₂.sched.pickThread = some s ∧
    Placed.firstLasting k₂.sched (readyList k₂.sched) = some r ∧
    2 ∈ readyList k₂.sched ∧ s.running = some 3 ∧ r = 3 := by
  obtain ⟨k₀, k, hboot, hrun, ⟨⟨k₁, outcome⟩, hact, hout, k₂, hupdate, hmem, s, hpick,
    hrunning⟩, hallowed⟩ := exists_run (N := 4)
    (fun k a => k.Allowed a ∧ Spares False k a)
    (twoThreads ++ [.threadSuspend, .threadKill 2])
    (P := fun k => (∃ p ∈ k.act .threadSuspend, p.2 = .schedules ∧
      ∃ k₂ ∈ p.1.updateSchedule, 2 ∈ readyList k₂.sched ∧
      ∃ s ∈ k₂.sched.pickThread, s.running = some 3) ∧ k.Allowed .threadSuspend) (by decide)
  obtain rfl : outcome = .schedules := hout
  obtain ⟨-, hcalls⟩ := runner_is_right hboot (Sound.consistent_runs hboot hrun)
  obtain ⟨k₃, s₃, r, hupdate₃, hpick₃, -, hfirst, hrunning₃, -⟩ :=
    hcalls .threadSuspend k₁ hallowed hact
  obtain rfl : k₂ = k₃ := Option.some.inj (hupdate.symm.trans hupdate₃)
  obtain rfl : s = s₃ := Option.some.inj (hpick.symm.trans hpick₃)
  exact ⟨k₁, k₂, s, r, hupdate, hpick, hfirst, hmem, hrunning,
    Option.some.inj (hrunning₃.symm.trans hrunning)⟩

end DiegOS.Kernel
