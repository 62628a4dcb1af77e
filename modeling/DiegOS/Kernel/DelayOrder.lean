import DiegOS.Kernel.DelayQueue

/-!
# The order of the delay queue

Threads are stamped when they enter the delay queue.  The queue is kept sorted by the time at
which its threads wake up, and by their stamps where the times are equal.

Main results:

- Theorem `delay_queue_ordered`: in runs without kills the queue is sorted, and whenever
  `schedule_delayed` is called it wakes exactly those whose time has come, in their order.
-/

namespace DiegOS.Kernel

open Lib Function

variable {N : Nat}

/-- The stamps of the arrivals in the delay queue. -/
structure Arrivals where
  stamp : Nat → Nat
  next : Nat

namespace Arrivals

/-- The running thread is stamped when it goes to sleep. -/
def after (n : Arrivals) (k : System N) : Action → Arrivals
  | .threadDelay msecs =>
    if msecs = 0 then n
    else ⟨Function.update n.stamp k.sched.runningTid n.next, n.next + 1⟩
  | _ => n

/-- One thread wakes up before another one, or at the same time and came earlier. -/
def Before (n : Arrivals) (s : Sched N) (a b : Nat) : Prop :=
  (s.storage a).delay < (s.storage b).delay ∨
    (s.storage a).delay = (s.storage b).delay ∧ n.stamp a < n.stamp b

end Arrivals

/-- The kernel and the stamps. -/
structure Stamped (N : Nat) where
  sys : System N
  arrivals : Arrivals

namespace Stamped

/-- An action up to `schedule_thread`, with the stamps. -/
def act (x : Stamped N) (a : Action) : Option (Stamped N × Outcome) :=
  (x.sys.act a).map fun (k, outcome) => (⟨k, x.arrivals.after x.sys a⟩, outcome)

/-- An action as a whole, with the stamps. -/
def exec (x : Stamped N) (a : Action) : Option (Stamped N) :=
  (x.sys.exec a).map fun k => ⟨k, x.arrivals.after x.sys a⟩

/-- Nobody has a stamp yet. -/
def start (k : System N) : Stamped N := ⟨k, ⟨fun _ => 0, 0⟩⟩

end Stamped

/-- No thread is killed. -/
def Action.Spares : Action → Prop
  | .threadKill _ => False
  | _ => True

instance decidableSpares (a : Action) : Decidable a.Spares :=
  decidable_of_iff (¬a matches .threadKill _) (by cases a <;> simp [Action.Spares])

lemma Action.Spares.all {a : Action} (h : a.Spares) (strict : Prop) (k : System N) :
    Kernel.Spares strict k a := by
  cases a with
  | threadKill tid => exact h.elim
  | _ => trivial

/-- The delay queue is sorted by time and then by arrival. -/
structure Ordered (n : Arrivals) (s : Sched N) : Prop where
  sorted : (s.queues.toList .delay).Pairwise (n.Before s)
  stamped : ∀ t ∈ s.queues.toList .delay, n.stamp t < n.next

namespace Ordered

variable {strict : Prop} {n n' : Arrivals} {s s' : Sched N} {k k' : System N} {a : Action}
  {outcome : Outcome} {out out' : List Nat} {L L' : Place → List Nat}

/-- Some of the threads leave the queue. -/
lemma sub (h : Ordered n s)
    (hlist : (s'.queues.toList .delay).Sublist (s.queues.toList .delay))
    (hdelay : ∀ t ∈ s'.queues.toList .delay, (s'.storage t).delay = (s.storage t).delay)
    (hstamp : ∀ t ∈ s'.queues.toList .delay, n'.stamp t = n.stamp t) (hnext : n.next ≤ n'.next) :
    Ordered n' s' := by
  constructor
  · refine (h.sorted.sublist hlist).imp_of_mem fun {b c} hb hc hbefore => ?_
    rw [Arrivals.Before, hdelay b hb, hdelay c hc, hstamp b hb, hstamp c hc]
    exact hbefore
  · intro t ht
    rw [hstamp t ht]
    exact Nat.lt_of_lt_of_le (h.stamped t (hlist.subset ht)) hnext

/-- Those that wake up by a time stand in front. -/
lemma front (h : Ordered n s) (time : Nat) :
    Front (Placed.wakesBy s time) (s.queues.toList .delay) := by
  refine h.sorted.imp fun {b c} hbefore hc => ?_
  simp only [Placed.wakesBy, decide_eq_true_eq] at hc ⊢
  rcases hbefore with hlt | ⟨heq, -⟩
  · omega
  · omega

/-- A thread that goes to sleep comes behind those that wake up no later. -/
lemma delayed {r msecs : Nat} (h : Ordered n s) (hplaced : Placed strict s out L)
    (hholds : s'.queues.Holds
      (update L .delay (Placed.delayedList s L r (msecs + s.now))))
    (hr : r ∉ L .delay) (hself : s'.storage r = Placed.delayedRecord s r msecs)
    (hdelay : ∀ t ∈ L .delay, (s'.storage t).delay = (s.storage t).delay) :
    Ordered ⟨update n.stamp r n.next, n.next + 1⟩ s' := by
  have hlist : s.queues.toList .delay = L .delay := hplaced.holds.toList
  have hlist' : s'.queues.toList .delay = Placed.delayedList s L r (msecs + s.now) := by
    rw [hholds.toList, update_self]
  have hne : ∀ t ∈ L .delay, t ≠ r := by
    rintro t ht rfl
    exact hr ht
  have htime : (s'.storage r).delay = msecs + s.now := by
    rw [hself]
    rfl
  have hsorted := h.sorted
  have hstamped := h.stamped
  have hfront := h.front (msecs + s.now)
  rw [hlist] at hsorted hstamped hfront
  constructor
  · rw [hlist', Placed.delayedList]
    apply pairwise_place _ hfront
    · intro t ht hwakes
      simp only [Placed.wakesBy, decide_eq_true_eq] at hwakes
      simp only [Arrivals.Before, hdelay t ht, htime, update_of_ne (hne t ht),
        update_self]
      have hlt := hstamped t ht
      omega
    · intro t ht hlate
      simp only [Placed.wakesBy, decide_eq_false_iff_not, Nat.not_le] at hlate
      simp only [Arrivals.Before, hdelay t ht, htime]
      exact .inl hlate
    · refine hsorted.imp_of_mem fun {b c} hb hc hbefore => ?_
      simp only [Arrivals.Before, hdelay b hb, hdelay c hc, update_of_ne (hne b hb),
        update_of_ne (hne c hc)]
      exact hbefore
  · intro t ht
    rw [hlist'] at ht
    rcases Placed.mem_delayedList.mp ht with rfl | ht
    · simp
    · simp only [update_of_ne (hne t ht)]
      exact Nat.lt_succ_of_lt (hstamped t ht)

/-- What the runner does when it goes to sleep does not stamp others. -/
lemma stamp_kept (hplaced : Placed strict k.sched k.sched.running.toList L) {t : Nat}
    (ht : t ∈ L .delay) : (n.after k a).stamp t = n.stamp t := by
  have hne : t ≠ k.sched.runningTid := by
    have hlive := (hplaced.member .delay t ht).1
    cases hrun : k.sched.running with
    | none =>
      rw [Sched.runningTid, hrun]
      exact Nat.ne_of_lt hlive.1
    | some r =>
      have hout := hplaced.outside r (by simp [hrun])
      rw [Sched.runningTid, hrun]
      dsimp only
      rw [hout.1.tid_eq]
      rintro rfl
      exact hout.2 .delay ht
  cases a with
  | threadDelay msecs =>
    unfold Arrivals.after
    dsimp only
    split
    · rfl
    · exact update_of_ne hne _ _
  | _ => rfl

lemma next_le : n.next ≤ (n.after k a).next := by
  cases a with
  | threadDelay msecs =>
    unfold Arrivals.after
    dsimp only
    split
    · exact le_rfl
    · exact Nat.le_succ _
  | _ => exact le_rfl

/-- The actions keep the order up to `schedule_thread`. -/
lemma act_effect (h : Ordered n k.sched) (hsound : Sound strict k) (hallowed : k.Allowed a)
    (hspares : Spares False k a) (hact : k.act a = some (k', outcome))
    (hplaced' : Placed strict k'.sched out L') (hmay : a ≠ .threadMaySuspend) :
    Ordered (n.after k a) k'.sched := by
  obtain ⟨L, hplaced⟩ := hsound.placed
  have hlist : k.sched.queues.toList .delay = L .delay := hplaced.holds.toList
  have hdelay : ∀ t ∈ L .delay, (k'.sched.storage t).delay = (k.sched.storage t).delay :=
    fun t ht => (hsound.effect hallowed hact).delay_kept hsound hspares hmay hplaced ht
  have hsame : L' .delay = L .delay → Ordered (n.after k a) k'.sched := by
    intro heq
    have hlist' : k'.sched.queues.toList .delay = L .delay := hplaced'.holds.toList.trans heq
    apply h.sub
    · rw [hlist', hlist]
    · rw [hlist']
      exact hdelay
    · rw [hlist']
      exact fun t ht => stamp_kept hplaced ht
    · exact next_le
  have hreq := System.act_requeued hsound hallowed hspares hact hmay
  have hholds' := hplaced'.holds
  cases hplaced.relisted hreq hplaced' with
  | same => exact hsame rfl
  | appended hq => exact hsame (update_of_ne (Ne.symm hq) _ _)
  | @delayed msecs r ha hmsecs hrun hr =>
    have hnot : r ∉ L .delay := (hplaced.outside r (by simp [hrun])).2 .delay
    have hstamps : n.after k a = ⟨update n.stamp r n.next, n.next + 1⟩ := by
      rw [ha, Arrivals.after, if_neg hmsecs, hsound.runningTid hrun]
    rw [hstamps]
    exact h.delayed hplaced hholds' hnot hr hdelay

/-- The first half of an update does not reach the sleeping threads. -/
lemma resumeAll (h : Ordered n k.sched) (hplaced : Placed strict k.sched out L) :
    Ordered n k.resumeAll.sched := by
  have hplaced' := hplaced.resumeAll
  apply h.sub
  · rw [hplaced.holds.toList, hplaced'.holds.toList]
  · rw [hplaced'.holds.toList]
    intro t ht
    rw [k.resumeAll_awakens.waiting (hplaced'.member .delay t ht).2.1]
  · exact fun _ _ => rfl
  · exact le_rfl

/-- Threads only leave the queue. -/
lemma settles (h : Ordered n s) (hplaced : Placed strict s out L) (hsettles : Settles s s')
    (hplaced' : Placed strict s' out' L') (hsub : (L' .delay).Sublist (L .delay)) :
    Ordered n s' := by
  apply h.sub
  · rw [hplaced.holds.toList, hplaced'.holds.toList]
    exact hsub
  · rw [hplaced'.holds.toList]
    intro t ht
    rw [hsettles.waiting t (hplaced'.member .delay t ht).2.1]
  · exact fun _ _ => rfl
  · exact le_rfl

variable (h : Ordered n k.sched)
include h

lemma updateSchedule (hplaced : Placed True k.sched out L)
    (heq : k.updateSchedule = some k') : Ordered n k'.sched := by
  have hall := hplaced.resumeAll
  obtain ⟨L', hsettles, hplaced', hupdated⟩ :=
    hplaced.updateSchedule_cases (hall.waiting trivial) heq
  refine (h.resumeAll hplaced).settles hall hsettles hplaced' ?_
  rw [hupdated.delay]
  exact (List.dropWhile_suffix _).sublist

lemma scheduleThread (hplaced : Placed True k.sched [] L)
    (heq : k.scheduleThread = some k') : Ordered n k'.sched := by
  obtain ⟨k₁, L₁, r, L₂, hupdate, hplaced₁, hsettles, hplaced₂, hrests⟩ :=
    hplaced.scheduleThread_cases heq
  refine (h.updateSchedule hplaced hupdate).settles hplaced₁ hsettles hplaced₂ ?_
  rw [hrests.delay]

/-- Every action keeps the order up to `schedule_thread`. -/
lemma act (hsound : Sound True k) (hallowed : k.Allowed a)
    (hspares : a.Spares) (hact : k.act a = some (k', outcome)) :
    Ordered (n.after k a) k'.sched := by
  obtain ⟨L', hplaced'⟩ := (hsound.act hallowed (hspares.all True k) hact).placed
  by_cases hmay : a = .threadMaySuspend
  · subst hmay
    obtain ⟨L, hplaced⟩ := hsound.placed
    apply hsound.maySuspend_rule (P := fun k => Ordered n k.sched) hallowed hact
    · exact fun k₁ hupdate => h.updateSchedule hplaced hupdate
    · intro k₁ hsound₁ h₁ hallowed₁ hsuspend
      exact h₁.act_effect hsound₁ hallowed₁ trivial hsuspend hplaced' (by simp)
  · exact h.act_effect hsound hallowed (hspares.all False k) hact hplaced' hmay

end Ordered

/-- The order holds in every reached state. -/
lemma Stamped.ordered {k₀ : System N} {x : Stamped N} (hboot : boot N = some k₀)
    (hrun : PartialRuns Stamped.exec (fun x a => x.sys.Allowed a ∧ a.Spares) (.start k₀) x) :
    Sound True x.sys ∧ Ordered x.arrivals x.sys.sched := by
  refine hrun.invariant (P := fun x => Sound True x.sys ∧ Ordered x.arrivals x.sys.sched) ?_ ?_
  · rintro x a x' ⟨hsound, hordered⟩ ⟨hallowed, hspares⟩ hexec
    obtain ⟨k', hk', rfl⟩ := Option.map_eq_some_iff.mp hexec
    have hall := hspares.all True x.sys
    exact ⟨hsound.exec hallowed hall hk', hsound.exec_rule
      (P := fun k => Ordered (x.arrivals.after x.sys a) k.sched) hallowed hall hk'
      (fun _ _ hact => hordered.act hsound hallowed hspares hact)
      fun _ _ hplaced hordered₁ hrest => hordered₁.scheduleThread hplaced hrest⟩
  · have hnil := (Sched.Idle.start hboot).toList_delay
    refine ⟨(Sound.start hboot).1, ?_, ?_⟩
    · rw [Stamped.start, hnil]
      exact List.Pairwise.nil
    · rw [Stamped.start, hnil]
      simp

/-! ## The wake-ups -/

namespace Sched

/-- The threads that `schedule_delayed` moves to the ready queues, one after the other. -/
def movedToReady (s : Sched N) : List Nat :=
  ({ s with newDelayDq := SCHED_DELAY_MAX } : Sched N).wakings (s.queues.count .delay)

/-- The threads whose time has come. -/
def due (s : Sched N) : List Nat :=
  (s.queues.toList .delay).filter fun t => decide ((s.storage t).delay ≤ s.now)

/-- Exactly those whose time has come are woken, in the order of the delay queue. -/
structure WakesDue (s s' : Sched N) : Prop where
  left : s'.queues.toList .delay =
    (s.queues.toList .delay).filter fun t => decide (s.now < (s.storage t).delay)
  ready : ∀ prio, s'.queues.toList (.ready prio) = s.queues.toList (.ready prio) ++
    s.due.filter fun t => decide ((s.storage t).priority = prio)
  order : s.movedToReady = s.due
  records : ∀ t, s'.storage t = if t ∈ s.due then (s.storage t).resumed else s.storage t

end Sched

/-- A sorted queue wakes those whose time has come. -/
lemma Ordered.wakesDue {n : Arrivals} {s : Sched N} {out : List Nat} {L : Place → List Nat}
    (h : Ordered n s) (hplaced : Placed True s out L) :
    ∃ s', s.scheduleDelayed = some s' ∧ s.WakesDue s' := by
  obtain ⟨s₁, L', heq, hplaced', hwoken⟩ := hplaced.scheduleDelayed_eq
  refine ⟨_, heq, ?_⟩
  have hlist : s.queues.toList .delay = L .delay := hplaced.holds.toList
  have hfront := h.front s.now
  rw [hlist] at hfront
  have hdue : s.dueList (L .delay) = s.due := by
    rw [Sched.dueList, hfront.takeWhile_eq, Sched.due, hlist]
    rfl
  have hsleeps : ∀ t ∈ s.due, s.sleeps t = true := by
    intro t ht
    rw [Sched.due, hlist, List.mem_filter] at ht
    rw [Sched.sleeps, hplaced.delayed trivial t ht.1]
    rfl
  constructor
  · have hleft : ∀ t, (!Placed.wakesBy s s.now t) = decide (s.now < (s.storage t).delay) := by
      intro t
      rw [Placed.wakesBy, ← decide_not]
      simp only [Nat.not_le]
    have hholds' := hplaced'.holds
    change s₁.queues.toList .delay = _
    rw [hholds'.toList, hwoken.delay, hfront.dropWhile_eq, hlist]
    simp only [hleft]
  · intro prio
    change s₁.queues.toList _ = _
    rw [hplaced'.holds.toList, hwoken.others _ (by simp), hplaced.holds.toList, hdue]
    congr 1
    apply List.filter_congr
    intro t ht
    simp [hsleeps t ht]
  · rw [Sched.movedToReady, hplaced.holds.count, hwoken.wakings, hdue]
    exact List.filter_eq_self.mpr hsleeps
  · intro t
    change s₁.storage t = _
    rw [hwoken.storage t, hdue]
    by_cases ht : t ∈ s.due
    · rw [if_pos ht, if_pos ht, Sched.woken, if_pos (hsleeps t ht)]
    · rw [if_neg ht, if_neg ht]

/-- In runs without kills the delay queue is sorted by time and then by arrival, and a call of
`schedule_delayed`, at any time or in an update, wakes exactly those whose time has come,
in this order. -/
theorem delay_queue_ordered {k₀ : System N} {x y : Stamped N} (hboot : boot N = some k₀)
    (hrun : PartialRuns Stamped.exec (fun x a => x.sys.Allowed a ∧ a.Spares) (.start k₀) x)
    (hy : y = x ∨ ∃ a outcome, x.sys.Allowed a ∧ a.Spares ∧ x.act a = some (y, outcome)) :
    Ordered y.arrivals y.sys.sched ∧
      (∀ now, ∃ s', ({ y.sys.sched with now := now } : Sched N).scheduleDelayed = some s' ∧
        Sched.WakesDue { y.sys.sched with now := now } s') ∧
      ∃ s s', y.sys.resumeAll.sched.updateWaiting = some s ∧ s.scheduleDelayed = some s' ∧
        s.WakesDue s' := by
  obtain ⟨hsound, hordered⟩ := Stamped.ordered hboot hrun
  obtain ⟨out, L, hplaced, hy⟩ : ∃ out L, Placed True y.sys.sched out L ∧
      Ordered y.arrivals y.sys.sched := by
    rcases hy with rfl | ⟨a, outcome, hallowed, hspares, hact⟩
    · obtain ⟨L, hplaced⟩ := hsound.placed
      exact ⟨_, L, hplaced, hordered⟩
    · obtain ⟨⟨k', outcome'⟩, hk', hres⟩ := Option.map_eq_some_iff.mp hact
      cases hres
      obtain ⟨L, hplaced⟩ := (hsound.act hallowed (hspares.all True x.sys) hk').placed
      exact ⟨_, L, hplaced, hordered.act hsound hallowed hspares hk'⟩
  refine ⟨hy, fun now => ?_, ?_⟩
  · have hnow : Ordered y.arrivals ({ y.sys.sched with now := now } : Sched N) :=
      ⟨hy.sorted, hy.stamped⟩
    exact hnow.wakesDue (hplaced.congr rfl rfl)
  · have hall := hplaced.resumeAll
    obtain ⟨s, L', heq, hplaced', -, -, hdelay, hstorage, -, -, -⟩ :=
      hall.updateWaiting_eq (hall.waiting trivial)
    have hlist : s.queues.toList .delay = L .delay := hplaced'.holds.toList.trans hdelay
    have hordered' : Ordered y.arrivals s := by
      apply (hy.resumeAll hplaced).sub
      · rw [hlist, hall.holds.toList]
      · rw [hlist]
        intro t ht
        rw [hstorage t ht]
      · exact fun _ _ => rfl
      · exact le_rfl
    obtain ⟨s', heq', hwakes⟩ := hordered'.wakesDue hplaced'
    exact ⟨s, s', heq, heq', hwakes⟩

/-- Two threads sleep, and the one that went to sleep later wakes up first. -/
theorem delay_queue_ordered_sleepers : ∃ (k₀ : System 4) (x : Stamped 4), boot 4 = some k₀ ∧
    PartialRuns Stamped.exec (fun x a => x.sys.Allowed a ∧ a.Spares) (.start k₀) x ∧
    x.sys.sched.queues.toList .delay = [3, 2] ∧ Ordered x.arrivals x.sys.sched ∧
    ∀ now, ∃ s', ({ x.sys.sched with now := now } : Sched 4).scheduleDelayed = some s' ∧
      Sched.WakesDue { x.sys.sched with now := now } s' := by
  obtain ⟨k₀, x, hboot, hrun, hlist⟩ := exists_observed (N := 4) Stamped.exec .start
    (fun x a => x.sys.Allowed a ∧ a.Spares) (twoThreads ++ [.threadDelay 50, .threadDelay 5])
    (P := fun x => x.sys.sched.queues.toList .delay = [3, 2]) (by decide)
  obtain ⟨hordered, hwakes, -⟩ := delay_queue_ordered hboot hrun (Or.inl rfl)
  exact ⟨k₀, x, hboot, hrun, hlist, hordered, hwakes⟩

end DiegOS.Kernel
