import DiegOS.Kernel.Frames

/-!
# The flag of a barrier

A barrier that does not close by itself is opened and closed by the calls that name it and by
nothing else.

Main results:

- Theorem `FlagKept.exec`: an action that does not name a barrier keeps its flag.
-/

namespace DiegOS.Kernel

open Lib Function

variable {N : Nat}

/-- The barrier exists and does not close by itself. -/
def System.Watched (k : System N) (b : Nat) : Prop :=
  b ∈ k.barriers ∧ (k.barrier b).autoclose = false

/-- The flag of a barrier is what it was. -/
def FlagKept (b : Nat) (k k' : System N) : Prop :=
  k.Watched b → k'.Watched b ∧ (k'.barrier b).isOpen = (k.barrier b).isOpen

/-- The actions that name a barrier to open, close or delete it. -/
def Action.names (b : Nat) : Action → Prop
  | .barrierDone b' | .barrierOpen b' | .barrierClose b' => b' = b
  | _ => False

namespace FlagKept

variable {b : Nat} {k k' k'' : System N} {a : Action}

lemma of_eq (hlist : k'.barriers = k.barriers) (hbarrier : k'.barrier = k.barrier) :
    FlagKept b k k' := by
  intro hwatched
  rw [System.Watched, hlist, hbarrier]
  exact ⟨hwatched, rfl⟩

/-- A call that answers without a change of the barriers. -/
lemma of_answer {k₁ : System N} {o o' : Outcome} (h : some (k₁, o) = some (k', o'))
    (hlist : k₁.barriers = k.barriers) (hbarrier : k₁.barrier = k.barrier) : FlagKept b k k' := by
  cases h
  exact of_eq hlist hbarrier

lemma trans (h : FlagKept b k k') (h' : FlagKept b k' k'') : FlagKept b k k'' := by
  intro hwatched
  obtain ⟨hmiddle, hfirst⟩ := h hwatched
  obtain ⟨hend, hsecond⟩ := h' hmiddle
  exact ⟨hend, hsecond.trans hfirst⟩

/-- Another barrier, or other threads that wait for it. -/
lemma setBarrier {b' : Nat} {bar : Barrier} (h : b' = b → bar.isOpen = (k.barrier b).isOpen ∧
    bar.autoclose = (k.barrier b).autoclose) : FlagKept b k (k.setBarrier b' bar) := by
  rintro ⟨hlisted, hauto⟩
  by_cases heq : b' = b
  · obtain ⟨hopen, hclose⟩ := h heq
    have hself : (k.setBarrier b' bar).barrier b = bar := by
      rw [← heq]
      exact update_self ..
    exact ⟨⟨hlisted, by rw [hself, hclose, hauto]⟩, by rw [hself, hopen]⟩
  · have hother : (k.setBarrier b' bar).barrier b = k.barrier b :=
      update_of_ne (Ne.symm heq) _ _
    exact ⟨⟨hlisted, by rw [hother, hauto]⟩, by rw [hother]⟩

lemma resumeOnEvents (l : List Nat) (k : System N) :
    FlagKept b k (System.resumeOnEvents l k) := by
  rw [System.resumeOnEvents_eq]
  exact of_eq rfl rfl

lemma resumeOnBarriers (l : List Nat) : ∀ k : System N,
    FlagKept b k (System.resumeOnBarriers l k) := by
  induction l with
  | nil => exact fun k => of_eq rfl rfl
  | cons b' l ih =>
    intro k
    rw [System.resumeOnBarriers]
    by_cases hopen : (k.barrier b').isOpen = true
    · rw [if_pos hopen]
      apply FlagKept.trans _ (ih _)
      intro hwatched
      apply FlagKept.setBarrier (k := k) _ hwatched
      rintro rfl
      rw [hwatched.2, hopen]
      exact ⟨rfl, rfl⟩
    · rw [if_neg hopen]
      exact ih k

lemma updateSchedule (h : k.updateSchedule = some k') : FlagKept b k k' := by
  obtain ⟨s, -, rfl⟩ := Option.map_eq_some_iff.mp h
  have hfirst := (resumeOnEvents (b := b) k.evQueues k).trans
    (resumeOnBarriers (System.resumeOnEvents k.evQueues k).barriers _)
  exact hfirst.trans (of_eq rfl rfl)

lemma scheduleThread (h : k.scheduleThread = some k') : FlagKept b k k' := by
  obtain ⟨k₁, hupdate, hpick⟩ := Option.bind_eq_some_iff.mp h
  obtain ⟨s, -, rfl⟩ := Option.map_eq_some_iff.mp hpick
  exact (updateSchedule hupdate).trans (of_eq rfl rfl)

lemma waitThread_same {flags : WaitFlags} {msecs : Nat} {c : Call} {ok : Bool}
    (h : k.waitThread flags msecs c = some (k', ok)) :
    k'.barriers = k.barriers ∧ k'.barrier = k.barrier := by
  unfold System.waitThread at h
  cases hrun : k.sched.running with
  | none =>
    rw [hrun] at h
    contradiction
  | some r =>
    rw [hrun] at h
    obtain ⟨⟨s, ok'⟩, -, hres⟩ := Option.map_eq_some_iff.mp h
    cases hres
    exact ⟨rfl, rfl⟩

lemma waitThread {flags : WaitFlags} {msecs : Nat} {c : Call} {ok : Bool}
    (h : k.waitThread flags msecs c = some (k', ok)) : FlagKept b k k' := by
  obtain ⟨hlist, hbarrier⟩ := waitThread_same h
  exact of_eq hlist hbarrier

lemma of_sameButItems (h : System.SameButItems k k') : FlagKept b k k' :=
  of_eq h.barriers h.barrier

lemma cancelWait {tid : Nat} (h : k.cancelWait tid = some k') : FlagKept b k k' := by
  rcases System.cancelWait_cases h with ⟨-, q, -, rfl⟩ | ⟨-, b', -, rfl⟩ | ⟨-, rfl⟩ |
    ⟨-, mutex, queues, -, -, rfl⟩ | ⟨-, rfl⟩
  · exact of_eq rfl rfl
  · apply FlagKept.setBarrier
    rintro rfl
    exact ⟨rfl, rfl⟩
  · exact of_sameButItems (System.cancelIoWaits_same k tid)
  · exact of_eq rfl rfl
  · exact of_eq rfl rfl

lemma removeThread {tid : Nat} (h : k.removeThread tid = some k') : FlagKept b k k' := by
  obtain ⟨-, -, -, hcases⟩ := System.removeThread_cases h
  rcases hcases with ⟨-, queues, -, rfl⟩ | ⟨-, k₂, hcancel, rfl⟩ | ⟨-, rfl⟩
  · exact of_eq rfl rfl
  · exact (cancelWait hcancel).trans (of_eq rfl rfl)
  · exact of_eq rfl rfl

lemma threadSuspend {o : Outcome} (h : k.threadSuspend = some (k', o)) : FlagKept b k k' := by
  obtain ⟨s, -, hres⟩ := Option.map_eq_some_iff.mp h
  cases hres
  exact of_eq rfl rfl

lemma threadMaySuspend {o : Outcome} (h : k.threadMaySuspend = some (k', o)) :
    FlagKept b k k' := by
  unfold System.threadMaySuspend at h
  split at h
  · contradiction
  · obtain ⟨k₁, hupdate, hrest⟩ := Option.bind_eq_some_iff.mp h
    split at hrest
    · cases hrest
      exact updateSchedule hupdate
    · exact (updateSchedule hupdate).trans (threadSuspend hrest)

lemma poll {table : Nat} {fds : List (Option PollAnswer)} {timeout : Int}
    {again : List (Option (Option Bool))} {o : Outcome}
    (h : k.poll table fds timeout again = some (k', o)) : FlagKept b k k' := by
  unfold System.poll at h
  split at h
  · exact of_answer h rfl rfl
  · dsimp only at h
    split at h
    · next k₁ hfirst =>
        obtain ⟨k₂, hclean, hres⟩ := Option.map_eq_some_iff.mp h
        cases hres
        exact of_sameButItems ((System.pollFirst_same hfirst).trans (System.cleanup_same hclean))
    · next k₁ hfirst =>
        have hsame := of_sameButItems (b := b) (System.pollFirst_same hfirst)
        split at h
        · obtain ⟨⟨k₂, ok⟩, hwait, hrest⟩ := Option.bind_eq_some_iff.mp h
          have hwaited := hsame.trans (waitThread hwait)
          split at hrest
          · cases hrest
            exact hwaited
          · obtain ⟨k₃, hclean, hres⟩ := Option.map_eq_some_iff.mp hrest
            cases hres
            exact hwaited.trans (of_sameButItems (System.cleanup_same hclean))
        · obtain ⟨-, hclean⟩ := System.pollEnd_shape h
          exact hsame.trans (of_sameButItems (System.cleanup_same hclean))

lemma finish {again : List (Option (Option Bool))} {o : Outcome}
    (h : k.finish again = some (k', o)) : FlagKept b k k' := by
  unfold System.finish at h
  split at h
  · contradiction
  · next r hrun =>
      split at h
      · contradiction
      · split at h
        · exact of_answer h rfl rfl
        · split at h
          · exact of_answer h rfl rfl
          · contradiction
      · split at h
        · exact of_answer h rfl rfl
        · contradiction
      · exact of_answer h rfl rfl
      · exact of_answer h rfl rfl
      · obtain ⟨-, hclean⟩ := System.pollEnd_shape h
        have hsame := System.cleanup_same hclean
        exact of_eq hsame.barriers hsame.barrier

/-- A call that has a result changes one field or none. -/
lemma act (hallowed : k.Allowed a) (hnames : ¬a.names b) {o : Outcome}
    (h : k.act a = some (k', o)) : FlagKept b k k' := by
  cases a with
  | kernelRun | createMutex m | eventInitQueue q | ioWaitInit w | tick now =>
    exact of_answer h rfl rfl
  | threadCreate name prio =>
    change k.threadCreate name prio = _ at h
    unfold System.threadCreate at h
    split at h
    · contradiction
    · split at h
      · exact of_answer h rfl rfl
      · split at h
        · exact of_answer h rfl rfl
        · contradiction
  | threadSuspend => exact threadSuspend h
  | threadMaySuspend => exact threadMaySuspend h
  | threadDelay msecs =>
    change k.threadDelay msecs = _ at h
    unfold System.threadDelay at h
    split at h
    · exact of_answer h rfl rfl
    · split at h
      · exact of_answer h rfl rfl
      · contradiction
  | threadTerminate =>
    change k.threadTerminate = _ at h
    unfold System.threadTerminate at h
    split at h
    · contradiction
    · obtain ⟨k₁, hremove, hres⟩ := Option.map_eq_some_iff.mp h
      cases hres
      exact removeThread hremove
  | threadKill tid =>
    change k.threadKill tid = _ at h
    unfold System.threadKill at h
    split at h
    · exact of_answer h rfl rfl
    · obtain ⟨k₁, hremove, hres⟩ := Option.map_eq_some_iff.mp h
      cases hres
      exact removeThread hremove
  | lockMutex m msecs =>
    change k.threadLockMutexTimed m msecs = _ at h
    unfold System.threadLockMutexTimed at h
    split at h
    · split at h
      · contradiction
      · dsimp only at h
        split at h
        · obtain ⟨⟨k₁, ok⟩, hwait, hres⟩ := Option.map_eq_some_iff.mp h
          cases hres
          obtain ⟨hlist, hbarrier⟩ := waitThread_same hwait
          exact of_eq hlist hbarrier
        · exact of_answer h rfl rfl
    · contradiction
  | unlockMutex m =>
    change k.threadUnlockMutex m = _ at h
    unfold System.threadUnlockMutex at h
    split at h
    · obtain ⟨⟨m', ok⟩, -, hres⟩ := Option.map_eq_some_iff.mp h
      dsimp only at hres
      split at hres
      · cases hres
        exact of_eq rfl rfl
      · cases hres
        exact of_eq rfl rfl
    · contradiction
  | destroyMutex m =>
    change k.threadDestroyMutex m = _ at h
    unfold System.threadDestroyMutex at h
    split at h
    · split at h
      · exact of_answer h rfl rfl
      · split at h
        · exact of_answer h rfl rfl
        · exact of_answer h rfl rfl
    · contradiction
  | eventDoneQueue q =>
    change k.eventDoneQueue q = _ at h
    unfold System.eventDoneQueue at h
    split at h
    · exact of_answer h rfl rfl
    · contradiction
  | eventWatchQueue q =>
    change k.eventWatchQueue q = _ at h
    unfold System.eventWatchQueue at h
    split at h
    · split at h
      · exact of_answer h rfl rfl
      · exact of_answer h rfl rfl
    · contradiction
  | eventPut q event =>
    change k.eventPut q event = _ at h
    unfold System.eventPut at h
    split at h
    · exact of_answer h rfl rfl
    · contradiction
  | eventGet q =>
    change k.eventGet q = _ at h
    unfold System.eventGet at h
    split at h
    · exact of_answer h rfl rfl
    · contradiction
  | waitForEvents q msecs =>
    change k.waitForEventsTimed q msecs = _ at h
    unfold System.waitForEventsTimed at h
    split at h
    · split at h
      · contradiction
      · dsimp only at h
        split at h
        · exact of_answer h rfl rfl
        · split at h
          · exact of_answer h rfl rfl
          · obtain ⟨⟨k₁, ok⟩, hwait, hres⟩ := Option.map_eq_some_iff.mp h
            split at hres
            · cases hres
              exact (waitThread hwait).trans (of_eq rfl rfl)
            · cases hres
              exact waitThread hwait
    · contradiction
  | barrierCreate b' autoclose =>
    cases h
    rintro ⟨hlisted, hauto⟩
    have hother : (k.barrierCreate b' autoclose).barrier b = k.barrier b := by
      apply update_of_ne
      rintro rfl
      exact hallowed.2 hlisted
    exact ⟨⟨List.mem_append_left _ hlisted, by rw [hother, hauto]⟩, by rw [hother]⟩
  | barrierDone b' =>
    change k.barrierDone b' = _ at h
    unfold System.barrierDone at h
    split at h
    · cases h
      intro hwatched
      obtain ⟨⟨hlisted, hauto⟩, hopen⟩ := resumeOnBarriers k.barriers k hwatched
      exact ⟨⟨(List.mem_erase_of_ne (Ne.symm hnames)).mpr hlisted, hauto⟩, hopen⟩
    · contradiction
  | barrierOpen b' | barrierClose b' =>
    change k.barrierSet b' _ = _ at h
    unfold System.barrierSet at h
    split at h
    · cases h
      exact FlagKept.setBarrier fun heq => absurd heq hnames
    · contradiction
  | waitForBarrier b' =>
    change k.waitForBarrier b' = _ at h
    unfold System.waitForBarrier at h
    split at h
    · split at h
      · exact of_answer h rfl rfl
      · obtain ⟨⟨k₁, ok⟩, hwait, hres⟩ := Option.map_eq_some_iff.mp h
        have hset : FlagKept b k (k.setBarrier b' { k.barrier b' with
            ids := update (k.barrier b').ids k.sched.runningTid true }) := by
          apply FlagKept.setBarrier
          rintro rfl
          exact ⟨rfl, rfl⟩
        dsimp only at hres
        split at hres
        · cases hres
          exact hset.trans (waitThread hwait)
        · cases hres
          exact hset.trans (waitThread hwait)
    · contradiction
  | ioWait w c msecs =>
    obtain ⟨⟨k₁, ok⟩, hwait, hres⟩ := Option.map_eq_some_iff.mp h
    obtain ⟨hlist, hbarrier⟩ := waitThread_same hwait
    have hwaited : FlagKept b k k₁ := of_eq hlist hbarrier
    dsimp only at hres
    split at hres
    · cases hres
      exact hwaited
    · cases hres
      exact hwaited.trans (of_eq rfl rfl)
  | ioResume w =>
    obtain ⟨k₁, hresume, hres⟩ := Option.map_eq_some_iff.mp h
    cases hres
    exact of_sameButItems (System.resumeItems_same hresume)
  | poll table fds timeout again => exact poll h
  | finish again => exact finish h

/-- An action that does not name the barrier keeps its flag. -/
theorem exec (hallowed : k.Allowed a) (hnames : ¬a.names b) (h : k.exec a = some k') :
    FlagKept b k k' := by
  obtain ⟨⟨k₁, o⟩, hact, hres⟩ := Option.bind_eq_some_iff.mp h
  have hfirst := act hallowed hnames hact
  dsimp only at hres
  split at hres
  · exact hfirst.trans (scheduleThread hres)
  · cases hres
    exact hfirst

end FlagKept

end DiegOS.Kernel
