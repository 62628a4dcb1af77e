import DiegOS.Kernel.DelayQueue
import Mathlib.Order.Basic

/-!
# The period of the scheduler's clock

`update_schedule` asks for the shortest time that a thread it has looked at has to wait.
The threads of the wait queue that the rolling loop passes over do not count.

Main results:

- Theorem `Timed.runs`: what the two static delays say when a queue is empty.
- Theorem `period_right_iff`: the period is the shortest remaining time exactly if every
  timed thread that is passed over has another one at its side that wakes up no later.
-/

namespace DiegOS.Kernel

open Lib Function

variable {N : Nat}

/-- Whoever waits can be resumed, the delay queue is sorted, and the delays found last are those
of threads that are still there. -/
structure Timed (s : Sched N) : Prop where
  resumables : ∀ t ∈ s.queues.toList .wait, (s.storage t).state = .waiting →
    (s.storage t).terminate = true ∨ (s.storage t).wait.events ≠ .none
  sorted : (s.queues.toList .delay).Pairwise fun a b =>
    (s.storage a).delay ≤ (s.storage b).delay
  waitMax : s.queues.toList .wait = [] → s.newDelayWq = SCHED_DELAY_MAX
  delayMax : s.queues.toList .delay = [] → s.newDelayDq = SCHED_DELAY_MAX

namespace Effect

variable {strict : Prop} {k k' : System N} {a : Action} {outcome : Outcome} {t : Nat}

/-- A thread that waits after an action of another thread waited as before, or is to be
terminated. -/
lemma waits_kept (h : Effect k a k' outcome) (hmay : a ≠ .threadMaySuspend)
    (hlive : k.sched.Live t) (hother : k.sched.running ≠ some t)
    (hstate : (k'.sched.storage t).state = .waiting) :
    k'.sched.storage t = k.sched.storage t ∨ (k'.sched.storage t).terminate = true := by
  have hne : ∀ {r : Nat}, k.sched.running = some r → t ≠ r := by
    rintro r hr rfl
    exact hother hr
  have hmarked : ∀ {i : Nat} {s : Sched N} {u : Thread}, u.terminate = true →
      s.storage t = k.sched.storage t ∨ t = i →
      (s.setThread i u).storage t = k.sched.storage t ∨
        ((s.setThread i u).storage t).terminate = true := by
    intro i s u hu hcases
    by_cases hti : t = i
    · subst hti
      exact .inr (by rw [Sched.setThread_storage, update_self]; exact hu)
    · exact .inl ((update_of_ne hti _ _).trans (hcases.resolve_right hti))
  cases h with
  | stayed => exact absurd rfl hmay
  | gaveWay => exact absurd rfl hmay
  | created hlt hdead =>
    refine .inl (update_of_ne ?_ _ _)
    rintro rfl
    exact hdead hlive
  | @killed tid k₁ hself hliveTid hidle hwaits hcancel =>
    refine hmarked rfl ?_
    by_cases htid : t = tid
    · exact .inr htid
    · exact .inl ((System.cancelWait_others hcancel).2 t htid)
  | killedReady => exact hmarked rfl (.inl rfl)
  | @killedLost tid queues hself hliveTid hidle hrun =>
    by_cases htid : t = tid
    · subst htid
      change (update k.sched.storage t _ t).state = _ at hstate
      rw [update_self] at hstate
      contradiction
    · exact .inl (update_of_ne htid _ _)
  | unlocked =>
    rcases k.sched.wakeAll_cases .MUTEX (fun t => t == _) t with heq | ⟨-, -, heq⟩
    · exact .inl heq
    · exact absurd (hstate.symm.trans (congrArg Thread.state heq)) (by simp [Thread.resumed])
  | barrierDone =>
    obtain ⟨T, bar, hbar, -⟩ := System.resumeOnBarriers_eq k.barriers k
    rw [hbar] at hstate ⊢
    rcases k.sched.wakeAll_cases .BARRIER T t with heq | ⟨-, -, heq⟩
    · exact .inl heq
    · exact absurd (hstate.symm.trans (congrArg Thread.state heq)) (by simp [Thread.resumed])
  | ioResumed hresume => exact .inl (by rw [(System.resumeItems_same hresume).sched])
  | pollFailed hfirst hclean =>
    rw [((System.pollFirst_same hfirst).trans (System.cleanup_same hclean)).sched]
    exact .inl rfl
  | pollWaits hr hidle hfirst =>
    refine .inl ((update_of_ne (hne hr) _ _).trans ?_)
    rw [(System.pollFirst_same hfirst).sched]
  | polled hfirst hclean =>
    rw [((System.pollFirst_same hfirst).trans (System.cleanup_same hclean)).sched]
    exact .inl rfl
  | pollFinished hr hcall hclean =>
    rw [(System.cleanup_same hclean).sched]
    exact .inl rfl
  | suspended hr | delayed hr | terminated hr | lockWaits _ hr | eventWaits _ hr
  | barrierWaits _ hr | ioWaits hr =>
    exact .inl (update_of_ne (hne hr) _ _)
  | _ => exact .inl rfl

/-- An action does not change the delays found last. -/
lemma delays_found (h : Effect k a k' outcome) (hspares : Spares False k a)
    (hmay : a ≠ .threadMaySuspend) :
    k'.sched.newDelayWq = k.sched.newDelayWq ∧ k'.sched.newDelayDq = k.sched.newDelayDq := by
  cases h with
  | stayed | gaveWay => exact absurd rfl hmay
  | killed _ hlive _ hwaits hcancel =>
    have hsched := System.cancelWait_sched (hspares hlive hwaits).1 hcancel
    rw [hsched]
    exact ⟨rfl, rfl⟩
  | barrierDone =>
    obtain ⟨_, _, hbar, -⟩ := System.resumeOnBarriers_eq k.barriers k
    rw [hbar]
    exact ⟨rfl, rfl⟩
  | ioResumed hresume =>
    rw [(System.resumeItems_same hresume).sched]
    exact ⟨rfl, rfl⟩
  | pollFailed hfirst hclean | polled hfirst hclean =>
    rw [((System.pollFirst_same hfirst).trans (System.cleanup_same hclean)).sched]
    exact ⟨rfl, rfl⟩
  | pollWaits hr hidle hfirst =>
    have hsched := (System.pollFirst_same hfirst).sched
    simp [System.blocked, Sched.setQueues, Sched.setThread, hsched]
  | pollFinished hr hcall hclean =>
    rw [(System.cleanup_same hclean).sched]
    exact ⟨rfl, rfl⟩
  | _ => exact ⟨rfl, rfl⟩

end Effect

namespace Timed

variable {strict : Prop} {s s' : Sched N} {k k' : System N} {a : Action} {outcome : Outcome}
  {out out' : List Nat} {L L' : Place → List Nat}

lemma placed_resumables (h : Timed s) (hplaced : Placed strict s out L) :
    Placed.Resumables s L := by
  have hresumables := h.resumables
  rwa [hplaced.holds.toList] at hresumables

/-- Those that wake up by a time stand in front. -/
lemma front (h : Timed s) (time : Nat) :
    Front (Placed.wakesBy s time) (s.queues.toList .delay) := by
  refine h.sorted.imp fun {b c} hle hc => ?_
  simp only [Placed.wakesBy, decide_eq_true_eq] at hc ⊢
  exact Nat.le_trans hle hc

/-- The lists and the records of those that are in them decide. -/
lemma of_lists (hplaced : Placed strict s out L)
    (hresumables : ∀ t ∈ L .wait, (s.storage t).state = .waiting →
      (s.storage t).terminate = true ∨ (s.storage t).wait.events ≠ .none)
    (hsorted : (L .delay).Pairwise fun a b => (s.storage a).delay ≤ (s.storage b).delay)
    (hwait : L .wait = [] → s.newDelayWq = SCHED_DELAY_MAX)
    (hdelay : L .delay = [] → s.newDelayDq = SCHED_DELAY_MAX) : Timed s := by
  constructor
  · rw [hplaced.holds.toList]
    exact hresumables
  · rw [hplaced.holds.toList]
    exact hsorted
  · rw [hplaced.holds.toList]
    exact hwait
  · rw [hplaced.holds.toList]
    exact hdelay

/-- The actions keep the invariant up to `schedule_thread`. -/
lemma act_effect (h : Timed k.sched) (hsound : Sound strict k) (hallowed : k.Allowed a)
    (hspares : Spares False k a) (hact : k.act a = some (k', outcome))
    (hplaced' : Placed strict k'.sched out L') (hmay : a ≠ .threadMaySuspend) :
    Timed k'.sched := by
  obtain ⟨L, hplaced⟩ := hsound.placed
  have heffect := hsound.effect hallowed hact
  obtain ⟨hwq, hdq⟩ := heffect.delays_found hspares hmay
  have hresumables := h.resumables
  have hsorted := h.sorted
  have hwaitMax := h.waitMax
  have hdelayMax := h.delayMax
  have hfront := h.front
  rw [hplaced.holds.toList] at hresumables hsorted hwaitMax hdelayMax hfront
  rw [← hwq] at hwaitMax
  rw [← hdq] at hdelayMax
  have hdelay : ∀ t ∈ L .delay, (k'.sched.storage t).delay = (k.sched.storage t).delay :=
    fun t ht => heffect.delay_kept hsound hspares hmay hplaced ht
  have hresumables' : ∀ t ∈ L .wait, (k'.sched.storage t).state = .waiting →
      (k'.sched.storage t).terminate = true ∨ (k'.sched.storage t).wait.events ≠ .none := by
    intro t ht hstate
    have hother : k.sched.running ≠ some t := by
      intro hrun
      exact (hplaced.outside t (by simp [hrun])).2 .wait ht
    rcases heffect.waits_kept hmay (hplaced.member .wait t ht).1 hother hstate with heq | hterm
    · rw [heq] at hstate ⊢
      exact hresumables t ht hstate
    · exact .inl hterm
  have hsorted' : (L .delay).Pairwise fun b c =>
      (k'.sched.storage b).delay ≤ (k'.sched.storage c).delay := by
    refine hsorted.imp_of_mem fun {b c} hb hc hle => ?_
    rw [hdelay b hb, hdelay c hc]
    exact hle
  have hreq := System.act_requeued hsound hallowed hspares hact hmay
  cases hplaced.relisted hreq hplaced' with
  | same => exact of_lists hplaced' hresumables' hsorted' hwaitMax hdelayMax
  | @appended q d hq hwait =>
    have hkeep : update L q (L q ++ [d]) .delay = L .delay :=
      update_of_ne (Ne.symm hq) _ _
    refine of_lists hplaced' (fun t ht hstate => ?_) (by rwa [hkeep]) (fun hnil => ?_)
      (by rwa [hkeep])
    · by_cases hqw : q = .wait
      · subst hqw
        rw [update_self, List.mem_append, List.mem_singleton] at ht
        rcases ht with ht | rfl
        · exact hresumables' t ht hstate
        · exact .inr (hwait rfl)
      · rw [update_of_ne (Ne.symm hqw)] at ht
        exact hresumables' t ht hstate
    · by_cases hqw : q = .wait
      · subst hqw
        simp at hnil
      · rw [update_of_ne (Ne.symm hqw)] at hnil
        exact hwaitMax hnil
  | @delayed msecs r ha hmsecs hrun hr =>
    have hne : ∀ t ∈ L .delay, t ≠ r := by
      rintro t ht rfl
      exact (hplaced.outside t (by simp [hrun])).2 .delay ht
    have htime : (k'.sched.storage r).delay = msecs + k.sched.now := by
      rw [hr]
      rfl
    refine of_lists hplaced' ?_ ?_ ?_ fun hnil => ?_
    · rw [update_of_ne (by simp)]
      exact hresumables'
    · rw [update_self]
      apply pairwise_place hsorted' (hfront (msecs + k.sched.now))
      · intro t ht hwakes
        rw [hdelay t ht, htime]
        simpa [Placed.wakesBy] using hwakes
      · intro t ht hlate
        rw [hdelay t ht, htime]
        exact Nat.le_of_lt (by simpa [Placed.wakesBy] using hlate)
    · rw [update_of_ne (by simp)]
      exact hwaitMax
    · have hmem : r ∈ Placed.delayedList k.sched L r (msecs + k.sched.now) :=
        Placed.mem_delayedList.mpr (.inl rfl)
      rw [update_self] at hnil
      simp [hnil] at hmem

/-- The first half of an update resumes threads of the wait queue only. -/
lemma resumeAll (h : Timed k.sched) (hplaced : Placed strict k.sched out L) :
    Timed k.resumeAll.sched := by
  have hall := hplaced.resumeAll
  have hawakens := k.resumeAll_awakens
  obtain ⟨hwq, hdq⟩ : k.resumeAll.sched.newDelayWq = k.sched.newDelayWq ∧
      k.resumeAll.sched.newDelayDq = k.sched.newDelayDq := by
    obtain ⟨T, bar, heq, -⟩ := k.resumeAll_eq
    rw [heq]
    exact ⟨rfl, rfl⟩
  have hresumables := h.resumables
  have hsorted := h.sorted
  have hwaitMax := h.waitMax
  have hdelayMax := h.delayMax
  rw [hplaced.holds.toList] at hresumables hsorted hwaitMax hdelayMax
  refine of_lists hall (fun t ht hstate => ?_) ?_ (fun hnil => hwq.trans (hwaitMax hnil))
    fun hnil => hdq.trans (hdelayMax hnil)
  · have hsame := hawakens.waiting hstate
    rw [hsame] at hstate ⊢
    exact hresumables t ht hstate
  · refine hsorted.imp_of_mem fun {b c} hb hc hle => ?_
    rw [hawakens.waiting (hall.member .delay b hb).2.1,
      hawakens.waiting (hall.member .delay c hc).2.1]
    exact hle

/-- Threads only leave the queues. -/
lemma settles (h : Timed s) (hplaced : Placed strict s out L) (hsettles : Settles s s')
    (hplaced' : Placed strict s' out' L') (hwait : ∀ t ∈ L' .wait, t ∈ L .wait)
    (hdelay : (L' .delay).Sublist (L .delay))
    (hwaitMax : L' .wait = [] → s'.newDelayWq = SCHED_DELAY_MAX)
    (hdelayMax : L' .delay = [] → s'.newDelayDq = SCHED_DELAY_MAX) : Timed s' := by
  have hresumables := h.resumables
  have hsorted := h.sorted
  rw [hplaced.holds.toList] at hresumables hsorted
  refine of_lists hplaced' (fun t ht hstate => ?_) ?_ hwaitMax hdelayMax
  · have hsame := hsettles.waiting t hstate
    rw [hsame] at hstate ⊢
    exact hresumables t (hwait t ht) hstate
  · refine (hsorted.sublist hdelay).imp_of_mem fun {b c} hb hc hle => ?_
    rw [hsettles.waiting b (hplaced'.member .delay b hb).2.1,
      hsettles.waiting c (hplaced'.member .delay c hc).2.1]
    exact hle

/-- A wait queue that was emptied had nobody in it who waits for a time to come. -/
lemma waitMax_updated (h : Timed s) (hplaced : Placed strict s out L)
    (hupdated : Updated s s' L L') (hnil : L' .wait = []) : s'.newDelayWq = SCHED_DELAY_MAX := by
  rw [hupdated.newDelayWq]
  split
  · next hempty =>
      apply h.waitMax
      rw [hplaced.holds.toList, hempty]
  · have hnone : (RollingScan.looks s.leaves (L .wait).length (L .wait)).filter s.awaits = [] := by
      rw [List.filter_eq_nil_iff]
      intro t ht hawaits
      have hmem := RollingScan.mem_of_mem_looks _ ht
      cases hleaves : s.leaves t with
      | true => exact Bool.false_ne_true ((Sched.awaits_of_leaves hleaves).symm.trans hawaits)
      | false =>
        have hleft := RollingScan.mem_left (n := (L .wait).length) hmem hleaves
        rw [← hupdated.wait, hnil] at hleft
        contradiction
    rw [hnone]
    rfl

lemma delayMax_updated (h : Timed s) (hplaced : Placed strict s out L)
    (hupdated : Updated s s' L L') (hnil : L' .delay = []) : s'.newDelayDq = SCHED_DELAY_MAX := by
  rw [hupdated.newDelayDq]
  split
  · next hempty =>
      apply h.delayMax
      rw [hplaced.holds.toList, hempty]
  · rw [hnil]
    rfl

lemma updated (h : Timed s) (hplaced : Placed strict s out L) (hsettles : Settles s s')
    (hplaced' : Placed strict s' out' L') (hupdated : Updated s s' L L') : Timed s' := by
  refine h.settles hplaced hsettles hplaced' (fun t ht => ?_) ?_
    (h.waitMax_updated hplaced hupdated) (h.delayMax_updated hplaced hupdated)
  · rw [hupdated.wait] at ht
    exact (RollingScan.of_mem_left (hplaced.holds.nodup .wait) ht).1
  · rw [hupdated.delay]
    exact (List.dropWhile_suffix _).sublist

lemma updateSchedule (h : Timed k.sched) (hplaced : Placed strict k.sched out L)
    (heq : k.updateSchedule = some k') : Timed k'.sched := by
  have hall := hplaced.resumeAll
  have hall' := h.resumeAll hplaced
  obtain ⟨L', hsettles, hplaced', hupdated⟩ :=
    hplaced.updateSchedule_cases (hall'.placed_resumables hall) heq
  exact hall'.updated hall hsettles hplaced' hupdated

lemma scheduleThread (h : Timed k.sched) (hplaced : Placed strict k.sched [] L)
    (heq : k.scheduleThread = some k') : Timed k'.sched := by
  obtain ⟨k₁, L₁, r, L₂, hupdate, hplaced₁, hsettles, hplaced₂, hrests⟩ :=
    hplaced.scheduleThread_cases heq
  have h₁ := h.updateSchedule hplaced hupdate
  have hwaitMax := h₁.waitMax
  have hdelayMax := h₁.delayMax
  rw [hplaced₁.holds.toList, ← hrests.wait, ← hrests.newDelayWq] at hwaitMax
  rw [hplaced₁.holds.toList, ← hrests.delay, ← hrests.newDelayDq] at hdelayMax
  refine h₁.settles hplaced₁ hsettles hplaced₂ (fun t ht => ?_) ?_ hwaitMax hdelayMax
  · rwa [hrests.wait] at ht
  · rw [hrests.delay]

/-- Every action keeps the invariant up to `schedule_thread`. -/
lemma act (h : Timed k.sched) (hsound : Sound False k) (hallowed : k.Allowed a)
    (hspares : Spares False k a) (hact : k.act a = some (k', outcome)) : Timed k'.sched := by
  obtain ⟨L', hplaced'⟩ := (hsound.act hallowed hspares hact).placed
  by_cases hmay : a = .threadMaySuspend
  · subst hmay
    obtain ⟨L, hplaced⟩ := hsound.placed
    apply hsound.maySuspend_rule hallowed hact
    · exact fun k₁ hupdate => h.updateSchedule hplaced hupdate
    · intro k₁ hsound₁ h₁ hallowed₁ hsuspend
      exact h₁.act_effect hsound₁ hallowed₁ trivial hsuspend hplaced' (by simp)
  · exact h.act_effect hsound hallowed hspares hact hplaced' hmay

/-- The invariant holds in every reached state. -/
theorem runs {k₀ : System N} (hboot : boot N = some k₀)
    (hrun : PartialRuns System.exec (fun k a => k.Allowed a ∧ Spares False k a) k₀ k) :
    Sound False k ∧ Timed k.sched := by
  refine hrun.invariant (P := fun k => Sound False k ∧ Timed k.sched) ?_ ?_
  · rintro k a k' ⟨hsound, htimed⟩ ⟨hallowed, hspares⟩ hexec
    exact ⟨hsound.exec hallowed hspares hexec, hsound.exec_rule (P := fun k => Timed k.sched)
      hallowed hspares hexec (fun _ _ hact => htimed.act hsound hallowed hspares hact)
      fun _ _ hplaced htimed₁ hrest => htimed₁.scheduleThread hplaced hrest⟩
  · have hidle := Sched.Idle.start hboot
    refine ⟨(Sound.start hboot).1, ?_, ?_, fun _ => hidle.newDelayWq, fun _ => hidle.newDelayDq⟩
    · rw [hidle.toList_wait]
      simp
    · rw [hidle.toList_delay]
      exact List.Pairwise.nil

end Timed

/-! ## The shortest time -/

lemma le_foldl_min {x : Nat} (l : List Nat) : ∀ {m : Nat},
    x ≤ l.foldl min m ↔ x ≤ m ∧ ∀ a ∈ l, x ≤ a := by
  induction l with
  | nil => simp
  | cons a l ih =>
    intro m
    rw [List.foldl_cons, ih, le_min_iff, List.forall_mem_cons, and_assoc]

namespace Sched

variable {s s' : Sched N} {l : List Nat}

/-- The time that a thread still has to wait. -/
def remaining (s : Sched N) (t : Nat) : Nat := (s.storage t).delay - s.now

/-- A thread that waits with a time-out. -/
def timed (s : Sched N) (t : Nat) : Bool := (s.storage t).wait.timeout

/-- The shortest time that some threads still have to wait. -/
def shortest (s : Sched N) (l : List Nat) : Nat :=
  (l.map s.remaining).foldl min SCHED_DELAY_MAX

lemma le_shortest {x : Nat} :
    x ≤ s.shortest l ↔ x ≤ SCHED_DELAY_MAX ∧ ∀ t ∈ l, x ≤ s.remaining t := by
  rw [shortest, le_foldl_min, List.forall_mem_map]

lemma updateNewDelay_eq {now delay nd : Nat} (h : now < delay) :
    updateNewDelay now delay nd = min nd (delay - now) := by
  unfold updateNewDelay
  split <;> omega

lemma soonest_eq (s : Sched N) (l : List Nat) : ∀ {nd : Nat},
    (∀ t ∈ l, s.now < (s.storage t).delay) →
    s.soonest l nd = (l.map s.remaining).foldl min nd := by
  induction l with
  | nil => exact fun _ => rfl
  | cons t l ih =>
    intro nd h
    rw [List.map_cons, List.foldl_cons, soonest, List.foldl_cons,
      updateNewDelay_eq (h t (by simp))]
    exact ih fun u hu => h u (List.mem_cons_of_mem t hu)

/-- The first thread of a sorted queue has the shortest time to wait. -/
lemma firstDelay_eq (hlate : ∀ t ∈ l, s.now < (s.storage t).delay)
    (hsorted : l.Pairwise fun a b => (s.storage a).delay ≤ (s.storage b).delay) :
    s.firstDelay l = s.shortest l := by
  apply eq_of_forall_le_iff
  intro x
  cases l with
  | nil => simp [firstDelay, shortest]
  | cons t l =>
    rw [firstDelay, updateNewDelay_eq (hlate t (by simp)), le_min_iff, le_shortest,
      List.forall_mem_cons]
    refine and_congr_right fun _ => ⟨fun hx => ⟨hx, fun u hu => ?_⟩, And.left⟩
    have hle := (List.pairwise_cons.mp hsorted).1 u hu
    unfold remaining
    omega

lemma shortest_attained (s : Sched N) (l : List Nat) :
    SCHED_DELAY_MAX ≤ s.shortest l ∨ ∃ t ∈ l, s.remaining t ≤ s.shortest l := by
  by_contra hnone
  obtain ⟨hmax, hall⟩ := not_or.mp hnone
  have hle : s.shortest l + 1 ≤ s.shortest l := by
    rw [le_shortest]
    refine ⟨Nat.lt_of_not_le hmax, fun t ht => Nat.lt_of_not_le fun hle => hall ⟨t, ht, hle⟩⟩
  omega

/-- A timed thread that does not leave the wait queue waits for its time. -/
lemma awaits_of_stays {t : Nat} (hfit : Place.wait.Fits (s.storage t))
    (hleaves : s.leaves t = false) (htimed : s.timed t = true) : s.awaits t = true := by
  have htimeout : (s.storage t).wait.timeout = true := htimed
  rcases hfit with hstate | hstate
  · simp only [leaves, hstate, htimeout, Bool.true_and, Bool.or_eq_false_iff,
      decide_eq_false_iff_not, Nat.not_le] at hleaves
    simp [awaits, hstate, htimeout, hleaves]
  · simp [leaves, hstate] at hleaves

/-- The period is the shortest time that a thread in the two queues has to wait. -/
def PeriodRight (s : Sched N) : Prop :=
  s.period = s.shortest (s.queues.toList .delay ++ (s.queues.toList .wait).filter s.timed)

/-- The threads that the loop of `schedule_waiting` looks at. -/
def scanned (s : Sched N) : List Nat :=
  RollingScan.looks s.leaves (s.queues.toList .wait).length (s.queues.toList .wait)

/-- A thread with a time-out that the loop does not look at. -/
def PassedOver (s : Sched N) (t : Nat) : Prop :=
  t ∈ s.queues.toList .wait ∧ s.timed t = true ∧ t ∉ s.scanned

/-- Somebody who is seen wakes up no later, or the longest period is over before. -/
def Covered (s : Sched N) (t : Nat) : Prop :=
  SCHED_DELAY_MAX ≤ s.remaining t ∨
    (∃ u ∈ s.queues.toList .delay, s.now < (s.storage u).delay ∧
      s.remaining u ≤ s.remaining t) ∨
    ∃ u ∈ s.scanned, s.awaits u = true ∧ s.remaining u ≤ s.remaining t

end Sched

namespace Timed

variable {strict : Prop} {s s' : Sched N} {out out' : List Nat} {L L' : Place → List Nat}

/-- The period is the shortest time of those that are seen. -/
lemma period_eq (h : Timed s) (hplaced : Placed strict s out L)
    (hupdated : Updated s s' L L') :
    s'.period = s.shortest (L' .delay ++ s.scanned.filter s.awaits) := by
  have hwait : s.queues.toList .wait = L .wait := hplaced.holds.toList
  have hdelay : s.queues.toList .delay = L .delay := hplaced.holds.toList
  have hfront := h.front s.now
  have hsorted := h.sorted
  have hwaitMax := h.waitMax
  have hdelayMax := h.delayMax
  rw [hdelay] at hfront hsorted hdelayMax
  rw [hwait] at hwaitMax
  have hdq : s'.newDelayDq = s.shortest (L' .delay) := by
    rw [hupdated.newDelayDq]
    split
    · next hnil =>
        rw [hdelayMax hnil, hupdated.delay, hnil]
        rfl
    · apply Sched.firstDelay_eq
      · intro t ht
        rw [hupdated.delay, hfront.dropWhile_eq, List.mem_filter] at ht
        simpa [Placed.wakesBy] using ht.2
      · rw [hupdated.delay]
        exact hsorted.sublist (List.dropWhile_suffix _).sublist
  have hwq : s'.newDelayWq = s.shortest (s.scanned.filter s.awaits) := by
    rw [hupdated.newDelayWq, Sched.scanned, hwait]
    split
    · next hnil =>
        rw [hwaitMax hnil, hnil]
        rfl
    · apply Sched.soonest_eq
      intro t ht
      have hawaits := (List.mem_filter.mp ht).2
      simp only [Sched.awaits, Bool.and_eq_true, decide_eq_true_eq] at hawaits
      exact hawaits.2
  rw [hupdated.period, hdq, hwq]
  apply eq_of_forall_le_iff
  intro x
  rw [le_min_iff, Sched.le_shortest, Sched.le_shortest, Sched.le_shortest,
    List.forall_mem_append]
  tauto

/-- The period is right exactly if those that are passed over are covered. -/
lemma right_iff (h : Timed s) (hplaced : Placed strict s out L)
    (hsettles : Settles s s') (hplaced' : Placed strict s' out' L')
    (hupdated : Updated s s' L L') :
    s'.PeriodRight ↔ ∀ t, s.PassedOver t → s.Covered t := by
  have hwait : s.queues.toList .wait = L .wait := hplaced.holds.toList
  have hdelay : s.queues.toList .delay = L .delay := hplaced.holds.toList
  have hfront := h.front s.now
  rw [hdelay] at hfront
  have hsleeper : ∀ t, t ∈ L' .delay ↔ t ∈ L .delay ∧ s.now < (s.storage t).delay := by
    intro t
    rw [hupdated.delay, hfront.dropWhile_eq, List.mem_filter]
    simp [Placed.wakesBy]
  have hremaining : ∀ t ∈ L' .delay ++ (L' .wait).filter s.timed,
      s'.remaining t = s.remaining t := by
    intro t ht
    have hsame : s'.storage t = s.storage t := by
      rcases List.mem_append.mp ht with ht | ht
      · exact hsettles.waiting t (hplaced'.member .delay t ht).2.1
      · exact hupdated.storage t (List.mem_filter.mp ht).1
    rw [Sched.remaining, Sched.remaining, hsame, hsettles.now]
  have htimed : (L' .wait).filter s'.timed = (L' .wait).filter s.timed := by
    apply List.filter_congr
    intro t ht
    rw [Sched.timed, Sched.timed, hupdated.storage t ht]
  have hleft : ∀ t, t ∈ L' .wait → t ∈ L .wait ∧ (t ∈ s.scanned → s.leaves t = false) := by
    intro t ht
    rw [hupdated.wait] at ht
    rw [Sched.scanned, hwait]
    exact RollingScan.of_mem_left (hplaced.holds.nodup .wait) ht
  have hseen : ∀ u ∈ s.scanned, s.awaits u = true → u ∈ (L' .wait).filter s.timed := by
    intro u hu hawaits
    have hmem : u ∈ L .wait := by
      rw [Sched.scanned, hwait] at hu
      exact RollingScan.mem_of_mem_looks _ hu
    have hstays : s.leaves u = false := by
      cases hleaves : s.leaves u with
      | false => rfl
      | true => exact absurd hawaits (by simp [Sched.awaits_of_leaves hleaves])
    simp only [Sched.awaits, Bool.and_eq_true] at hawaits
    refine List.mem_filter.mpr ⟨?_, hawaits.1.2⟩
    rw [hupdated.wait]
    exact RollingScan.mem_left hmem hstays
  have hshortest : s'.shortest (L' .delay ++ (L' .wait).filter s.timed) =
      s.shortest (L' .delay ++ (L' .wait).filter s.timed) := by
    rw [Sched.shortest, Sched.shortest, List.map_congr_left hremaining]
  rw [Sched.PeriodRight, hplaced'.holds.toList, hplaced'.holds.toList, htimed, hshortest,
    h.period_eq hplaced hupdated]
  constructor
  · rintro heq t ⟨ht, htime, hnot⟩
    rw [hwait] at ht
    have hmem : t ∈ (L' .wait).filter s.timed := by
      refine List.mem_filter.mpr ⟨?_, htime⟩
      rw [hupdated.wait]
      rw [Sched.scanned, hwait] at hnot
      exact RollingScan.mem_left_of_not_looks ht hnot
    have hle := (Sched.le_shortest.mp (Nat.le_of_eq heq)).2 t (List.mem_append_right _ hmem)
    rcases s.shortest_attained (L' .delay ++ s.scanned.filter s.awaits) with hmax | ⟨u, hu, hule⟩
    · exact .inl (Nat.le_trans hmax hle)
    · rcases List.mem_append.mp hu with hu | hu
      · obtain ⟨hin, hlate⟩ := (hsleeper u).mp hu
        rw [← hdelay] at hin
        exact .inr (.inl ⟨u, hin, hlate, Nat.le_trans hule hle⟩)
      · obtain ⟨hin, hawaits⟩ := List.mem_filter.mp hu
        exact .inr (.inr ⟨u, hin, hawaits, Nat.le_trans hule hle⟩)
  · intro hcovered
    apply eq_of_forall_le_iff
    intro x
    rw [Sched.le_shortest, Sched.le_shortest, List.forall_mem_append, List.forall_mem_append]
    constructor
    · rintro ⟨hmax, hsleepers, hwaiters⟩
      refine ⟨hmax, hsleepers, fun t ht => ?_⟩
      obtain ⟨hin, htime⟩ := List.mem_filter.mp ht
      obtain ⟨hold, hstays⟩ := hleft t hin
      by_cases hlooks : t ∈ s.scanned
      · have hawaits := Sched.awaits_of_stays (hplaced.member .wait t hold).2 (hstays hlooks) htime
        exact hwaiters t (List.mem_filter.mpr ⟨hlooks, hawaits⟩)
      · rcases hcovered t ⟨hwait ▸ hold, htime, hlooks⟩ with hle | ⟨u, hu, hlate, hle⟩ |
          ⟨u, hu, hawaits, hle⟩
        · exact Nat.le_trans hmax hle
        · rw [hdelay] at hu
          exact Nat.le_trans (hsleepers u ((hsleeper u).mpr ⟨hu, hlate⟩)) hle
        · exact Nat.le_trans (hwaiters u (List.mem_filter.mpr ⟨hu, hawaits⟩)) hle
    · rintro ⟨hmax, hsleepers, hwaiters⟩
      refine ⟨hmax, hsleepers, fun u hu => ?_⟩
      obtain ⟨hin, hawaits⟩ := List.mem_filter.mp hu
      exact hwaiters u (hseen u hin hawaits)

end Timed

/-- The state at some time. -/
def System.atTime (k : System N) (now : Nat) : System N := k.setSched { k.sched with now := now }

/-- Whenever `update_schedule` is called, the period that it asks for is the shortest time
that a thread still has to wait, exactly if those that the scan passes over are covered. -/
theorem period_right_iff {k₀ k y : System N} (hboot : boot N = some k₀)
    (hrun : PartialRuns System.exec (fun k a => k.Allowed a ∧ Spares False k a) k₀ k)
    (hy : y = k ∨ ∃ a outcome, k.Allowed a ∧ Spares False k a ∧ k.act a = some (y, outcome))
    (now : Nat) :
    ∃ k', (y.atTime now).updateSchedule = some k' ∧ (k'.sched.PeriodRight ↔
      ∀ t, (y.atTime now).resumeAll.sched.PassedOver t →
        (y.atTime now).resumeAll.sched.Covered t) := by
  obtain ⟨hsound, htimed⟩ := Timed.runs hboot hrun
  obtain ⟨out, L, hplaced, hy⟩ : ∃ out L, Placed False y.sched out L ∧ Timed y.sched := by
    rcases hy with rfl | ⟨a, outcome, hallowed, hspares, hact⟩
    · obtain ⟨L, hplaced⟩ := hsound.placed
      exact ⟨_, L, hplaced, htimed⟩
    · obtain ⟨L, hplaced⟩ := (hsound.act hallowed hspares hact).placed
      exact ⟨_, L, hplaced, htimed.act hsound hallowed hspares hact⟩
  have hplacedNow : Placed False (y.atTime now).sched out L := hplaced.congr rfl rfl
  have htimedNow : Timed (y.atTime now).sched :=
    ⟨hy.resumables, hy.sorted, hy.waitMax, hy.delayMax⟩
  have hall := hplacedNow.resumeAll
  have hall' := htimedNow.resumeAll hplacedNow
  obtain ⟨s, -, hupdate, -⟩ := System.updateSchedule_spec hplacedNow
  obtain ⟨L', hsettles, hplaced', hupdated⟩ :=
    hplacedNow.updateSchedule_cases (hall'.placed_resumables hall) hupdate
  exact ⟨_, hupdate, hall'.right_iff hall hsettles hplaced' hupdated⟩

instance decidablePeriodRight (s : Sched N) : Decidable s.PeriodRight :=
  inferInstanceAs (Decidable (_ = _))

/-- Two threads wait, and the period is the time until the first one has to be woken. -/
theorem period_right_waiters : ∃ k₀ k k' : System 4, boot 4 = some k₀ ∧
    PartialRuns System.exec (fun k a => k.Allowed a ∧ Spares False k a) k₀ k ∧
    (k.atTime 3).updateSchedule = some k' ∧ k'.sched.period = 2 ∧
    ∀ t, (k.atTime 3).resumeAll.sched.PassedOver t →
      (k.atTime 3).resumeAll.sched.Covered t := by
  obtain ⟨k₀, k, hboot, hrun, k', heq, hright, hperiod⟩ := exists_run (N := 4)
    (fun k a => k.Allowed a ∧ Spares False k a) (waitersExpire.take 11)
    (P := fun k => ∃ k' ∈ (k.atTime 3).updateSchedule, k'.sched.PeriodRight ∧
      k'.sched.period = 2) (by decide)
  obtain ⟨k'', heq', hiff⟩ := period_right_iff hboot hrun (Or.inl rfl) 3
  obtain rfl : k' = k'' := Option.some.inj (heq.symm.trans heq')
  exact ⟨k₀, k, k', hboot, hrun, heq, hperiod, hiff.mp hright⟩

/-- A thread has to be woken after 41 milliseconds, but the scan passes over it, and the
longest period is asked for. -/
theorem period_too_long : ∃ k₀ k k' : System 4, boot 4 = some k₀ ∧
    PartialRuns System.exec (fun k a => k.Allowed a ∧ Spares False k a) k₀ k ∧
    k.updateSchedule = some k' ∧ 3 ∈ k'.sched.queues.toList .wait ∧ k'.sched.remaining 3 = 41 ∧
    k'.sched.period = SCHED_DELAY_MAX ∧ ¬k'.sched.PeriodRight := by
  obtain ⟨k₀, k, hboot, hrun, k', heq, hrest⟩ := exists_run (N := 4)
    (fun k a => k.Allowed a ∧ Spares False k a) waitersExpire
    (P := fun k => ∃ k' ∈ k.updateSchedule, 3 ∈ k'.sched.queues.toList .wait ∧
      k'.sched.remaining 3 = 41 ∧ k'.sched.period = SCHED_DELAY_MAX ∧ ¬k'.sched.PeriodRight)
    (by decide)
  exact ⟨k₀, k, k', hboot, hrun, heq, hrest⟩

end DiegOS.Kernel
