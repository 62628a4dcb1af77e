import DiegOS.Kernel.Frames

/-!
# Who owns a mutex

Ownership is handed over in `unlock_mutex`, and time-outs are decided by the
scheduler.  A waiter whose time has passed leaves its id in the mutex.

Main results:

- Theorem `lock_codes_agree`: when a lock call tells the truth, and when a thread
  that gave up is left alone.
- Theorem `lock_codes_disagree`: what goes wrong otherwise.
-/

namespace DiegOS.Kernel

open Lib Function

variable {N : Nat}

/-- Neither a kill nor the end of a mutex. -/
def Locking : Action → Prop
  | .threadKill _ | .destroyMutex _ => False
  | _ => True

instance : DecidablePred Locking := fun a =>
  decidable_of_iff (¬a matches .threadKill _ | .destroyMutex _) (by cases a <;> simp [Locking])

/-- The call is a lock of the mutex. -/
def Call.locks (m : Nat) : Call → Bool
  | .lock m' _ => m' == m
  | _ => false

/-- The oldest waiter of a mutex that its owner unlocks is still in a call that locks it. -/
def AsksStill (k : System N) : Action → Prop
  | .unlockMutex m => (k.mutex m).lockerTid = k.sched.runningTid →
      ∀ t ∈ (k.mutex m).waiters.head?, (k.call t).locks m = true
  | _ => True

instance (k : System N) : DecidablePred (AsksStill k)
  | .unlockMutex m => inferInstanceAs (Decidable
      ((k.mutex m).lockerTid = _ → ∀ t ∈ (k.mutex m).waiters.head?, _))
  | .kernelRun | .threadCreate _ _ | .threadSuspend | .threadMaySuspend | .threadDelay _
  | .threadTerminate | .threadKill _ | .createMutex _ | .lockMutex _ _ | .destroyMutex _
  | .eventInitQueue _ | .eventDoneQueue _ | .eventWatchQueue _ | .eventPut _ _ | .eventGet _
  | .waitForEvents _ _ | .barrierCreate _ _ | .barrierDone _ | .barrierOpen _ | .barrierClose _
  | .waitForBarrier _ | .ioWaitInit _ | .ioWait _ _ _ | .ioResume _ | .poll _ _ _ _ | .finish _
  | .tick _ => isTrue trivial

/-! ## Calls that lock without a time-out -/

/-- The thread waits for a mutex without a time-out. -/
def Sched.Blocked (s : Sched N) (t : Nat) : Prop := s.Waits t ∧ (s.storage t).wait = .MUTEX

/-- The buffers of the mutexes are rings. -/
def System.ValidMutexes (k : System N) : Prop := ∀ m ∈ k.mutexes, (k.mutex m).Valid N

lemma System.ValidMutexes.update {k : System N} {m : Nat} {m' : Mutex} (h : k.ValidMutexes)
    (hm' : m'.Valid N) : ∀ i ∈ k.mutexes, (update k.mutex m m' i).Valid N := by
  intro i hi
  by_cases hmm : i = m
  · subst hmm
    rwa [update_self]
  · rw [update_of_ne hmm]
    exact h i hi

/-- A thread in such a call owns the mutex or waits. -/
structure LockCalls (k : System N) : Prop where
  valid : k.ValidMutexes
  calls : ∀ t m, k.call t = .lock m 0 → t < N ∧ m ∈ k.mutexes ∧
    ((k.mutex m).lockerTid = t ∨ k.sched.Blocked t)

lemma Sched.Blocked.congr {s s' : Sched N} {t : Nat} (h : s.Blocked t)
    (heq : s'.storage t = s.storage t) : s'.Blocked t :=
  ⟨h.1.congr heq, by rw [heq]; exact h.2⟩

/-- An update leaves those alone who only wait for a mutex. -/
lemma System.Settled.blocked {k k' : System N} {t : Nat} (h : System.Settled k k')
    (hblocked : k.sched.Blocked t) : k'.sched.Blocked t := by
  refine hblocked.congr (h.kept hblocked.1 ?_ ?_)
  · rintro (⟨hflag, -⟩ | ⟨hflag, -⟩ | ⟨hflag, -⟩) <;>
      rw [hblocked.2] at hflag <;> contradiction
  · rw [hblocked.2]
    rfl

/-- The running thread waits for a mutex. -/
lemma Sound.blocked_running {strict : Prop} {k k' : System N} {r : Nat} (h : Sound strict k)
    (hrun : k.sched.running = some r) {queues : LinkedQueues Place Nat} {c : Call} :
    (k'.blocked r (Placed.waitingRecord k.sched r .MUTEX 0) queues c).sched.Blocked r := by
  have hrecord : (k'.blocked r (Placed.waitingRecord k.sched r .MUTEX 0) queues
      c).sched.storage r = Placed.waitingRecord k.sched r .MUTEX 0 := update_self ..
  have hlive := h.live hrun
  refine ⟨⟨⟨hlive.1, hlive.2.1, ?_⟩, ?_, ?_⟩, ?_⟩
  · rw [hrecord]
    exact hlive.tid_eq
  · rw [hrecord]
    rfl
  · rw [hrecord]
    exact (h.runner r hrun).2
  · rw [hrecord]
    rfl

/-- The oldest waiter of a mutex becomes the owner; nobody else does. -/
lemma AsksStill.owner {k : System N} {m : Nat} {m' : Mutex} (h : AsksStill k (.unlockMutex m))
    (hvalid : (k.mutex m).Valid N)
    (hunlock : (k.mutex m).unlockMutex k.knows k.sched.runningTid = some (m', true)) :
    k.sched.runningTid = (k.mutex m).lockerTid ∧ m'.Valid N ∧
      (m'.lockerTid ≠ THREAD_TID_INVALID → (k.call m'.lockerTid).locks m = true) := by
  obtain ⟨hself, -, hvalid', hlock, -, -⟩ := Mutex.unlockMutex_true hvalid hunlock
  refine ⟨hself, hvalid', fun hne => ?_⟩
  cases hhead : (k.mutex m).waiters.head? with
  | none =>
    rw [hlock, hhead] at hne
    contradiction
  | some t =>
    rw [hlock, hhead]
    exact h hself.symm t hhead

namespace LockCalls

variable {k k' : System N} {a : Action} {outcome : Outcome}

lemma effect (h : LockCalls k) (hsound : Sound False k) (hallowed : k.Allowed a)
    (hlocking : Locking a) (hasks : AsksStill k a) (hmay : a ≠ .threadMaySuspend)
    (heffect : Effect k a k' outcome) : LockCalls k' := by
  have hcalls := fun t => heffect.call_cases (t := t) hmay
  -- a thread goes on waiting unless a mutex is handed over to it
  have hrecord : ∀ t, k.sched.Blocked t → k'.sched.Blocked t ∨ ∃ m m', a = .unlockMutex m ∧
      (k.mutex m).unlockMutex k.knows k.sched.runningTid = some (m', true) ∧
      t = m'.lockerTid := by
    intro t ht
    have hkill : a ≠ .threadKill t := by
      rintro rfl
      exact hlocking
    rcases heffect.waiting_record hsound ht.1.live ht.1.state hkill hmay with
      hsame | ⟨-, ⟨-, hunlock⟩ | ⟨hbarrier, -⟩⟩
    · exact .inl (ht.congr hsame)
    · exact .inr hunlock
    · rw [ht.2] at hbarrier
      contradiction
  have hold : ∀ t m, k.call t = .lock m 0 → (∀ m, a ≠ .unlockMutex m) → t < N ∧ m ∈ k.mutexes ∧
      ((k.mutex m).lockerTid = t ∨ k'.sched.Blocked t) := by
    intro t m hcall hno
    obtain ⟨hlt, hm, hown⟩ := h.calls t m hcall
    refine ⟨hlt, hm, hown.imp_right fun hblocked => ?_⟩
    rcases hrecord t hblocked with hblocked' | ⟨m, m', hunlock, -⟩
    · exact hblocked'
    · exact absurd hunlock (hno m)
  cases ha : a.onMutexes with
  | false =>
    obtain ⟨hlist, htable⟩ := heffect.framed.mutexes ha
    refine ⟨fun m hm => ?_, fun t m hcall => ?_⟩
    · rw [htable]
      exact h.valid m (hlist ▸ hm)
    · rw [hlist, htable]
      refine hold t m ?_ fun m hunlock => by simp [hunlock, Action.onMutexes] at ha
      rcases hcalls t with hsame | hnone | ⟨-, hnew⟩
      · rw [← hsame, hcall]
      · rw [hnone] at hcall
        contradiction
      · rw [hnew] at hcall
        cases a <;> simp [Action.call] at hcall
        simp [Action.onMutexes] at ha
  | true =>
    cases heffect with
    | unchanged => exact h
    | @mutexCreated m₁ hnew =>
      have hother : ∀ m ∈ k.mutexes, (k.threadCreateMutex m₁).mutex m = k.mutex m := by
        intro m hm
        refine update_of_ne ?_ _ _
        rintro rfl
        exact hnew hm
      refine ⟨fun m hm => ?_, fun t m hcall => ?_⟩
      · rcases List.mem_cons.mp hm with rfl | hm
        · obtain ⟨L, hplaced⟩ := hsound.placed
          change (update k.mutex m (.init N) m).Valid N
          rw [update_self]
          exact Mutex.init_valid hplaced.live_idle.lt
        · rw [hother m hm]
          exact h.valid m hm
      · obtain ⟨hlt, hm, hown⟩ := hold t m hcall (by simp)
        rw [hother m hm]
        exact ⟨hlt, .tail _ hm, hown⟩
    | @locked r m₁ msecs hm₁ hrun hfree =>
      have hvalid' := h.valid m₁ hm₁
      refine ⟨h.valid.update ⟨hvalid'.ring, hvalid'.size⟩, fun t m hcall => ?_⟩
      · obtain ⟨hlt, hm, hown⟩ := hold t m hcall (by simp)
        refine ⟨hlt, hm, hown.imp_left fun hlock => ?_⟩
        have hmm : m ≠ m₁ := by
          rintro rfl
          rw [hfree] at hlock
          exact Nat.ne_of_lt (Nat.lt_trans hlt hsound.size) hlock.symm
        dsimp only
        rw [update_of_ne hmm]
        exact hlock
    | @lockWaits r m₁ msecs m' queues hm₁ hrun hr hheld hlock =>
      have hlive := hsound.live hrun
      obtain ⟨hvalid', hsame, -⟩ := Mutex.lockMutex_true (h.valid m₁ hm₁)
        (Nat.ne_of_lt hlive.1) hheld hlock
      have howner : ∀ m, (update k.mutex m₁ m' m).lockerTid =
          (k.mutex m).lockerTid := by
        intro m
        by_cases hmm : m = m₁
        · subst hmm
          rw [update_self, hsame]
        · rw [update_of_ne hmm]
      refine ⟨h.valid.update hvalid', fun t m hcall => ?_⟩
      · by_cases ht : t = r
        · subst ht
          change update k.call t (.lock m₁ msecs) t = _ at hcall
          rw [update_self] at hcall
          obtain ⟨rfl, rfl⟩ := Call.lock.inj hcall
          exact ⟨hlive.lt, hm₁, .inr (hsound.blocked_running hrun)⟩
        · change update k.call r (.lock m₁ msecs) t = _ at hcall
          rw [update_of_ne ht] at hcall
          obtain ⟨hlt, hm, hown⟩ := hold t m hcall (by simp)
          refine ⟨hlt, hm, hown.imp_left fun heq => ?_⟩
          exact (howner m).trans heq
    | @unlocked m₁ m' hm₁ hunlock =>
      obtain ⟨hself, hvalid', howner⟩ := AsksStill.owner hasks (h.valid m₁ hm₁) hunlock
      obtain ⟨r, hrun, -, hnone⟩ := hallowed
      rw [hsound.runningTid hrun] at hself
      refine ⟨h.valid.update hvalid', fun t m hcall => ?_⟩
      · obtain ⟨hlt, hm, hown⟩ := h.calls t m hcall
        refine ⟨hlt, hm, ?_⟩
        rcases hown with hlock | hblocked
        · left
          have hmm : m ≠ m₁ := by
            rintro rfl
            have htr : t = r := hlock.symm.trans hself.symm
            subst htr
            rw [hnone] at hcall
            contradiction
          exact (congrArg _ (update_of_ne hmm m' k.mutex)).trans hlock
        · rcases hrecord t hblocked with hblocked' | ⟨m₂, m₂', heq, hunlock', ht⟩
          · exact .inr hblocked'
          · left
            obtain rfl : m₁ = m₂ := Action.unlockMutex.inj heq
            obtain rfl : m' = m₂' :=
              (Prod.mk.inj (Option.some.inj (hunlock.symm.trans hunlock'))).1
            have hne : m'.lockerTid ≠ THREAD_TID_INVALID :=
              ht ▸ Nat.ne_of_lt (Nat.lt_trans hlt hsound.size)
            have hlocks := howner hne
            rw [← ht, show k.call t = .lock m 0 from hcall] at hlocks
            obtain rfl : m = m₁ := beq_iff_eq.mp hlocks
            exact (congrArg _ (update_self m m' k.mutex)).trans ht.symm
    | mutexDestroyed | killed | killedReady | killedLost => exact absurd hlocking id
    | _ => simp [Action.onMutexes] at ha

lemma settle (h : LockCalls k) (hsettled : System.Settled k k') : LockCalls k' := by
  have htables := hsettled.tables
  constructor
  · unfold System.ValidMutexes
    rw [htables.mutexes, htables.mutex]
    exact h.valid
  · intro t m hcall
    rw [htables.call] at hcall
    obtain ⟨hlt, hm, hown⟩ := h.calls t m hcall
    rw [htables.mutexes, htables.mutex]
    exact ⟨hlt, hm, hown.imp_right hsettled.blocked⟩

/-- What is asked of the actions of a run. -/
def Orderly (k : System N) (a : Action) : Prop := Locking a ∧ AsksStill k a

instance (k : System N) (a : Action) : Decidable (Orderly k a) :=
  inferInstanceAs (Decidable (_ ∧ _))

lemma Orderly.spares (h : Orderly k a) : Spares False k a := by
  cases a with
  | threadKill tid => exact absurd h.1 id
  | _ => trivial

lemma keeps : Keeps (N := N) Orderly LockCalls where
  spares := fun _ _ h => h.spares
  suspend := fun _ => ⟨trivial, trivial⟩
  effect := fun _ _ _ _ hsound h hallowed hok hmay heffect =>
    h.effect hsound hallowed hok.1 hok.2 hmay heffect
  settle := fun _ _ h hsettled => h.settle hsettled

lemma start (hboot : boot N = some k) : LockCalls k := by
  obtain ⟨s₀, -, hrest⟩ := Option.bind_eq_some_iff.mp hboot
  obtain ⟨s₂, -, rfl⟩ := Option.map_eq_some_iff.mp hrest
  constructor
  · intro m hm
    contradiction
  · intro t m hcall
    contradiction

end LockCalls

/-! ## Threads that gave up -/

/-- The thread does not lock the mutex. -/
def Refrains (m r : Nat) (k : System N) (a : Action) : Prop :=
  a.call.locks m = true → k.sched.running ≠ some r

instance (m r : Nat) (k : System N) (a : Action) : Decidable (Refrains m r k a) :=
  inferInstanceAs (Decidable (_ → _))

/-- The thread neither owns the mutex nor is it in a call that locks it. -/
structure Apart (m r : Nat) (k : System N) : Prop where
  valid : k.ValidMutexes
  listed : m ∈ k.mutexes
  owner : (k.mutex m).lockerTid ≠ r
  call : (k.call r).locks m = false

namespace Apart

variable {k k' : System N} {a : Action} {outcome : Outcome} {m r : Nat}

lemma effect (hr : r ≠ THREAD_TID_INVALID) (h : Apart m r k) (hcalls : LockCalls k)
    (hsound : Sound False k) (hallowed : k.Allowed a) (hok : LockCalls.Orderly k a)
    (hrefrains : Refrains m r k a) (hmay : a ≠ .threadMaySuspend)
    (heffect : Effect k a k' outcome) : Apart m r k' := by
  have hvalid := (hcalls.effect hsound hallowed hok.1 hok.2 hmay heffect).valid
  have hcall : (k'.call r).locks m = false := by
    rcases heffect.call_cases (t := r) hmay with hsame | hnone | ⟨hrun, hnew⟩
    · rw [hsame]
      exact h.call
    · rw [hnone]
      rfl
    · rw [hnew, Bool.eq_false_iff]
      exact fun hlocks => hrefrains hlocks hrun
  suffices hrest : m ∈ k'.mutexes ∧ (k'.mutex m).lockerTid ≠ r from
    ⟨hvalid, hrest.1, hrest.2, hcall⟩
  cases ha : a.onMutexes with
  | false =>
    obtain ⟨hlist, htable⟩ := heffect.framed.mutexes ha
    rw [hlist, htable]
    exact ⟨h.listed, h.owner⟩
  | true =>
    have hother : ∀ {m₁ : Nat} {m' : Mutex}, (m = m₁ → m'.lockerTid ≠ r) →
        (update k.mutex m₁ m' m).lockerTid ≠ r := by
      intro m₁ m' hne
      by_cases hmm : m = m₁
      · rw [hmm, update_self]
        exact hne hmm
      · rw [update_of_ne hmm]
        exact h.owner
    cases heffect with
    | unchanged => exact ⟨h.listed, h.owner⟩
    | mutexCreated hnew =>
      exact ⟨.tail _ h.listed, hother fun heq => absurd (heq ▸ h.listed) hnew⟩
    | locked hm hrun hfree =>
      refine ⟨h.listed, hother ?_⟩
      rintro rfl heq
      exact hrefrains (beq_self_eq_true m) (hrun.trans (congrArg some heq))
    | lockWaits hm hrun hidle hheld hlock =>
      refine ⟨h.listed, hother ?_⟩
      rintro rfl
      obtain ⟨-, hsame, -⟩ := Mutex.lockMutex_true (h.valid m h.listed)
        (Nat.ne_of_lt (hsound.live hrun).1) hheld hlock
      rw [hsame]
      exact h.owner
    | @unlocked m₁ m' hm hunlock =>
      refine ⟨h.listed, hother ?_⟩
      rintro rfl heq
      obtain ⟨-, -, howner⟩ := AsksStill.owner hok.2 (h.valid m h.listed) hunlock
      have hlocks := howner (heq ▸ hr)
      rw [heq, h.call] at hlocks
      contradiction
    | mutexDestroyed | killed | killedReady | killedLost => exact absurd hok.1 id
    | _ => simp [Action.onMutexes] at ha

lemma settle (h : Apart m r k) (hsettled : System.Settled k k') : Apart m r k' := by
  have htables := hsettled.tables
  constructor
  · unfold System.ValidMutexes
    rw [htables.mutexes, htables.mutex]
    exact h.valid
  · rw [htables.mutexes]
    exact h.listed
  · rw [htables.mutex]
    exact h.owner
  · rw [htables.call]
    exact h.call

lemma keeps (hr : r ≠ THREAD_TID_INVALID) :
    Keeps (N := N) (fun k a => LockCalls.Orderly k a ∧ Refrains m r k a)
      fun k => LockCalls k ∧ Apart m r k where
  spares := fun _ _ h => h.1.spares
  suspend := fun _ => ⟨⟨trivial, trivial⟩, by simp [Refrains, Action.call, Call.locks]⟩
  effect := fun _ _ _ _ hsound h hallowed hok hmay heffect =>
    ⟨h.1.effect hsound hallowed hok.1.1 hok.1.2 hmay heffect,
      h.2.effect hr h.1 hsound hallowed hok.1 hok.2 hmay heffect⟩
  settle := fun _ _ h hsettled => ⟨h.1.settle hsettled, h.2.settle hsettled⟩

end Apart

/-! ## Return codes -/

lemma System.exec_of_act {k k' : System N} {a : Action} {outcome : Outcome}
    (h : k.act a = some (k', outcome)) (hout : outcome ≠ .schedules) : k.exec a = some k' := by
  unfold System.exec
  rw [h, Option.bind_some]
  exact if_neg hout

/-- A lock call that returns at once agrees with its code exactly if the mutex was held.  A
call that had to wait always agrees, and a thread that gave up does not become the owner, as
long as the oldest waiter of an unlocked mutex is still in its call. -/
theorem lock_codes_agree {k₀ k : System N} (hboot : boot N = some k₀)
    (hrun : PartialRuns System.exec (fun k a => k.Allowed a ∧ LockCalls.Orderly k a) k₀ k)
    {r : Nat} (hr : k.sched.running = some r) :
    (∀ m msecs k₁ code, k.Allowed (.lockMutex m msecs) → (k.mutex m).lockerTid ≠ r →
      k.act (.lockMutex m msecs) = some (k₁, .returns code) →
      ((code = .EOK ↔ (k₁.mutex m).lockerTid = r) ↔
        (k.mutex m).lockerTid ≠ THREAD_TID_INVALID)) ∧
    ∀ m msecs again k₁ code, k.call r = .lock m msecs →
      k.act (.finish again) = some (k₁, .returns code) →
      (code = .EOK ↔ (k₁.mutex m).lockerTid = r) ∧
      (code = .ETIMEDOUT → ∀ k₂,
        PartialRuns System.exec
          (fun k a => k.Allowed a ∧ LockCalls.Orderly k a ∧ Refrains m r k a) k₁ k₂ →
        (k₂.mutex m).lockerTid ≠ r) := by
  obtain ⟨hsound, hcalls⟩ :=
    LockCalls.keeps.runs (Sound.start hboot).1 (LockCalls.start hboot) hrun
  have htid := hsound.runningTid hr
  have hlive := hsound.live hr
  constructor
  · intro m msecs k₁ code hallowed hother hact
    change k.threadLockMutexTimed m msecs = _ at hact
    unfold System.threadLockMutexTimed at hact
    split at hact
    · rw [hr] at hact
      dsimp only at hact
      rw [hlive.tid_eq] at hact
      split at hact
      · obtain ⟨p, -, hres⟩ := Option.map_eq_some_iff.mp hact
        simp at hres
      · next hnot =>
          obtain ⟨rfl, hout⟩ := Prod.mk.inj (Option.some.inj hact)
          obtain rfl : Code.EBUSY = code := Outcome.returns.inj hout
          dsimp only
          rw [Function.update_self]
          by_cases hfree : (k.mutex m).lockerTid = THREAD_TID_INVALID
          · rw [Mutex.lockMutex_free (decide_eq_true hlive) hfree (Nat.ne_of_lt hlive.1)]
            simp [hfree]
          · have hrefused : ((k.mutex m).lockMutex k.knows r).2 = false := by
              rw [Bool.eq_false_iff]
              exact fun hok => hnot ⟨hok, by simpa [Mutex.isLocked] using hfree⟩
            have hsame : ((k.mutex m).lockMutex k.knows r).1 = k.mutex m :=
              Mutex.lockMutex_false (Prod.ext rfl hrefused)
            rw [hsame]
            simp [hfree, hother]
    · contradiction
  · intro m msecs again k₁ code hcall hact
    have hexec := System.exec_of_act hact (by simp)
    have hallowed : k.Allowed (.finish again) := ⟨r, hr, by simp [hcall]⟩
    have hok : LockCalls.Orderly k (.finish again) := ⟨trivial, trivial⟩
    have hsound₁ := hsound.exec hallowed hok.spares hexec
    have hcalls₁ := LockCalls.keeps.exec hsound hcalls hallowed hok hexec
    change k.finish again = _ at hact
    unfold System.finish at hact
    rw [hr] at hact
    dsimp only at hact
    rw [hcall] at hact
    dsimp only at hact
    split at hact
    · next hzero =>
        subst hzero
        obtain ⟨rfl, hout⟩ := Prod.mk.inj (Option.some.inj hact)
        obtain rfl : Code.EOK = code := Outcome.returns.inj hout
        have hown : (k.mutex m).lockerTid = r := by
          refine (hcalls.calls r m hcall).2.2.resolve_right fun hblocked => ?_
          have hstate := hblocked.1.state
          rw [(hsound.runner r hr).1] at hstate
          contradiction
        exact ⟨iff_of_true rfl hown, by simp⟩
    · split at hact
      · next hm =>
          obtain ⟨rfl, hout⟩ := Prod.mk.inj (Option.some.inj hact)
          have hcode := Outcome.returns.inj hout
          rw [htid] at hcode
          by_cases hown : (k.mutex m).lockerTid = r
          · rw [if_pos hown.symm] at hcode
            subst hcode
            exact ⟨iff_of_true rfl hown, by simp⟩
          · rw [if_neg (Ne.symm hown)] at hcode
            subst hcode
            refine ⟨iff_of_false (by simp) hown, fun _ k₂ hrun₂ => ?_⟩
            have hapart : Apart m r { k with call := Function.update k.call r .none } := by
              refine ⟨hcalls₁.valid, hm, hown, ?_⟩
              dsimp only
              rw [Function.update_self]
              rfl
            exact ((Apart.keeps (Nat.ne_of_lt hlive.1)).runs hsound₁ ⟨hcalls₁, hapart⟩
              hrun₂).2.2.owner
      · contradiction

/-- Thread 2 is about to lock a free mutex. -/
def locksFree : List Action := twoThreads ++ [.createMutex 7]

/-- Thread 3 gives up while thread 2 owns the mutex. -/
def givesUp : List Action :=
  locksFree ++ [.lockMutex 7 0, .threadSuspend, .lockMutex 7 5, .tick 9, .threadSuspend,
    .threadSuspend]

theorem lock_codes_agree_timeout : ∃ k₀ k k₁ : System 4, boot 4 = some k₀ ∧
    PartialRuns System.exec (fun k a => k.Allowed a ∧ LockCalls.Orderly k a) k₀ k ∧
    k.act (.finish []) = some (k₁, .returns .ETIMEDOUT) ∧ (k₁.mutex 7).lockerTid ≠ 3 ∧
    ∀ k₂, PartialRuns System.exec
      (fun k a => k.Allowed a ∧ LockCalls.Orderly k a ∧ Refrains 7 3 k a) k₁ k₂ →
      (k₂.mutex 7).lockerTid ≠ 3 := by
  obtain ⟨k₀, k, hboot, hrun, hrunning, hcall, ⟨k₁, outcome⟩, hact, hout⟩ := exists_run (N := 4)
    (fun k a => k.Allowed a ∧ LockCalls.Orderly k a) givesUp
    (P := fun k => k.sched.running = some 3 ∧ k.call 3 = .lock 7 5 ∧
      ∃ p ∈ k.act (.finish []), p.2 = .returns .ETIMEDOUT) (by decide)
  obtain rfl : outcome = .returns .ETIMEDOUT := hout
  obtain ⟨hagree, hnever⟩ := (lock_codes_agree hboot hrun hrunning).2 7 5 [] k₁ _ hcall hact
  exact ⟨k₀, k, k₁, hboot, hrun, hact, fun hown => by simpa using hagree.mpr hown, hnever rfl⟩

/-- Whoever takes a free mutex is told that it is busy; whoever gives up becomes the owner when
the owner unlocks. -/
theorem lock_codes_disagree :
    (∃ k₀ k k₁ : System 4, boot 4 = some k₀ ∧
      PartialRuns System.exec (fun k a => k.Allowed a ∧ Locking a) k₀ k ∧
      k.Allowed (.lockMutex 7 0) ∧ k.sched.running = some 2 ∧ (k.mutex 7).lockerTid ≠ 2 ∧
      k.act (.lockMutex 7 0) = some (k₁, .returns .EBUSY) ∧ (k₁.mutex 7).lockerTid = 2) ∧
    ∃ k₀ k k₁ k₂ : System 4, boot 4 = some k₀ ∧
      PartialRuns System.exec (fun k a => k.Allowed a ∧ Locking a) k₀ k ∧
      k.sched.running = some 3 ∧ k.call 3 = .lock 7 5 ∧
      k.act (.finish []) = some (k₁, .returns .ETIMEDOUT) ∧
      PartialRuns System.exec (fun k a => k.Allowed a ∧ Locking a ∧ Refrains 7 3 k a) k₁ k₂ ∧
      (k₂.mutex 7).lockerTid = 3 := by
  constructor
  · obtain ⟨k₀, k, hboot, hrun, hallowed, hrunning, hother, ⟨k₁, outcome⟩, hact, hout, hown⟩ :=
      exists_run (N := 4) (fun k a => k.Allowed a ∧ Locking a) locksFree
        (P := fun k => k.Allowed (.lockMutex 7 0) ∧ k.sched.running = some 2 ∧
          (k.mutex 7).lockerTid ≠ 2 ∧ ∃ p ∈ k.act (.lockMutex 7 0), p.2 = .returns .EBUSY ∧
          (p.1.mutex 7).lockerTid = 2) (by decide)
    obtain rfl : outcome = .returns .EBUSY := hout
    exact ⟨k₀, k, k₁, hboot, hrun, hallowed, hrunning, hother, hact, hown⟩
  · obtain ⟨k₀, k, hboot, hrun, hrunning, hcall, ⟨k₁, outcome⟩, hact, hout, k₂, hcheck, hown⟩ :=
      exists_run (N := 4) (fun k a => k.Allowed a ∧ Locking a) givesUp
        (P := fun k => k.sched.running = some 3 ∧ k.call 3 = .lock 7 5 ∧
          ∃ p ∈ k.act (.finish []), p.2 = .returns .ETIMEDOUT ∧
          ∃ k₂ ∈ checkedRun System.exec (fun k a => k.Allowed a ∧ Locking a ∧ Refrains 7 3 k a)
            [.threadSuspend, .unlockMutex 7] p.1, (k₂.mutex 7).lockerTid = 3) (by decide)
    obtain rfl : outcome = .returns .ETIMEDOUT := hout
    exact ⟨k₀, k, k₁, k₂, hboot, hrun, hrunning, hcall, hact,
      PartialRuns.of_checkedRun _ (PartialRuns.refl k₁) hcheck, hown⟩

end DiegOS.Kernel
