import DiegOS.Kernel.Places
import DiegOS.Lib.RollingScan

/-!
# The scan of the wait queue

`schedule_waiting` looks at the head of the wait queue as often as there are threads in
it, and rolls the queue after every look.  When the head has left the queue, the roll moves
a thread to the end that has not been looked at.

Main results:

- Theorem `Placed.visitAllWaiting_eq`: what the loop does to the queues and the records.
- Theorem `misses_nobody_iff`: nobody is missed exactly if no two neighbours leave, but
  for the last two.
-/

namespace DiegOS.Kernel

open Lib Function

variable {N : Nat}

namespace Sched

/-- A thread in the wait queue that is ready, is to be terminated, or whose time has come. -/
def leaves (s : Sched N) (t : Nat) : Bool :=
  match (s.storage t).state with
  | .ready => true
  | .waiting => (s.storage t).terminate ||
      ((s.storage t).wait.timeout && decide ((s.storage t).delay ≤ s.now))
  | .running | .dead => false

/-- A thread in the wait queue that waits for a time to come. -/
def awaits (s : Sched N) (t : Nat) : Bool :=
  (s.storage t).state == .waiting && !(s.storage t).terminate && (s.storage t).wait.timeout &&
    decide (s.now < (s.storage t).delay)

/-- Where a thread goes that leaves the wait queue. -/
def goesTo (s : Sched N) (t : Nat) : Place :=
  if (s.storage t).state = .waiting ∧ (s.storage t).terminate = true then .dead
  else .ready (s.storage t).priority

/-- The record with which it goes there. -/
def gone (s : Sched N) (t : Nat) : Thread :=
  if (s.storage t).state = .ready then s.storage t
  else if (s.storage t).terminate = true then { s.storage t with state := .dead }
  else (s.storage t).resumed

/-- The threads that the loop of `schedule_waiting` looks at. -/
def lookedAt : Nat → Sched N → List Nat
  | 0, _ => []
  | n + 1, s =>
    match s.queues.head .wait, s.visitWaiting with
    | some ptr, some s' =>
      match s'.queues.roll .wait with
      | none => [ptr]
      | some queues => ptr :: lookedAt n (s'.setQueues queues)
    | _, _ => []

end Sched

namespace Placed

variable {strict : Prop} {s s' : Sched N} {out : List Nat} {L L' : Place → List Nat} {d : Nat}
  {l : List Nat}

/-- Whoever waits in the wait queue can be resumed, or is to be terminated. -/
def Resumables (s : Sched N) (L : Place → List Nat) : Prop :=
  ∀ t ∈ L .wait, (s.storage t).state = .waiting →
    (s.storage t).terminate = true ∨ (s.storage t).wait.events ≠ .none

/-- The delay that the next period is computed from concerns no queue. -/
lemma setNewDelayWq (h : Placed strict s out L) (nd : Nat) :
    Placed strict ({ s with newDelayWq := nd } : Sched N) out L :=
  h.congr rfl rfl

lemma goesTo_ne_wait (s : Sched N) (d : Nat) : s.goesTo d ≠ .wait := by
  unfold Sched.goesTo
  split <;> simp

variable (h : Placed strict s out L)
include h

/-- A look at a thread that stays. -/
lemma visitWaiting_stays (hcons : L .wait = d :: l)
    (hstays : s.leaves d = false) : s.visitWaiting = some { s with
      newDelayWq := if s.awaits d = true then
        Sched.updateNewDelay s.now (s.storage d).delay s.newDelayWq else s.newDelayWq } := by
  have hhead : s.queues.head .wait = some d := by rw [h.holds.head, hcons]; rfl
  obtain ⟨-, hfit⟩ := h.member .wait d (by simp [hcons])
  rcases hfit with hstate | hstate
  · simp only [Sched.leaves, hstate, Bool.or_eq_false_iff, Bool.and_eq_false_iff] at hstays
    obtain ⟨hterm, htime⟩ := hstays
    cases htimeout : (s.storage d).wait.timeout with
    | false => simp [Sched.visitWaiting, Sched.awaits, hhead, hstate, hterm, htimeout]
    | true =>
      have hlt : ¬(s.storage d).delay ≤ s.now := by simpa [htimeout] using htime
      simp [Sched.visitWaiting, Sched.awaits, hhead, hstate, hterm, htimeout, hlt,
        Nat.lt_of_not_le hlt]
  · simp [Sched.leaves, hstate] at hstays

/-- A look at a thread that leaves. -/
lemma visitWaiting_leaves (hresumables : Resumables s L)
    (hcons : L .wait = d :: l) (hleaves : s.leaves d = true) :
    ∃ queues, s.visitWaiting = some ((s.setThread d (s.gone d)).setQueues queues) ∧
      Placed strict ((s.setThread d (s.gone d)).setQueues queues) out
        (update (update L .wait l) (s.goesTo d) (L (s.goesTo d) ++ [d])) := by
  have hmem : d ∈ L .wait := by simp [hcons]
  have hhead : s.queues.head .wait = some d := by rw [h.holds.head, hcons]; rfl
  obtain ⟨hlive, hfit⟩ := h.member _ d hmem
  have hd := h.ne_idle hmem (by simp)
  obtain ⟨queues, hdeq, hout⟩ := h.take hcons
  have hkeep : update L .wait l (s.goesTo d) = L (s.goesTo d) :=
    update_of_ne (goesTo_ne_wait s d) _ _
  rw [← hkeep]
  rcases hfit with hstate | hstate
  · cases hterm : (s.storage d).terminate with
    | true =>
      have hgoes : s.goesTo d = .dead := if_pos ⟨hstate, hterm⟩
      have hgone : s.gone d = { s.storage d with state := .dead } := by
        simp [Sched.gone, hstate, hterm]
      obtain ⟨queues', henq, -, hplaced⟩ := hout.bury hd hterm
      rw [hgoes, hgone]
      refine ⟨queues', ?_, hplaced⟩
      simp only [Sched.visitWaiting, hhead, hstate, hterm, if_true, hdeq]
      rw [henq]
      rfl
    | false =>
      have hgoes : s.goesTo d = .ready (s.storage d).priority := if_neg (by simp [hterm])
      have hgone : s.gone d = (s.storage d).resumed := by simp [Sched.gone, hstate, hterm]
      simp only [Sched.leaves, hstate, hterm, Bool.false_or, Bool.and_eq_true,
        decide_eq_true_eq] at hleaves
      obtain ⟨htimeout, hdelay⟩ := hleaves
      have hevents : (s.storage d).wait.events ≠ .none :=
        (hresumables d hmem hstate).resolve_left (by simp [hterm])
      have hget : (s.setQueues queues).getThread d = some (s.storage d) :=
        Sched.getThread_eq_some.mpr ⟨hlive, rfl⟩
      have hresume : (s.setQueues queues).resumeThread (s.storage d).wait.events d =
          ((s.setQueues queues).setThread d (s.storage d).resumed, true) := by
        simp [Sched.resumeThread, hget, hstate, WaitFlags.events_inter, hevents,
          Thread.resumed]
      obtain ⟨queues', henq, hplaced⟩ := hout.put (q := .ready (s.storage d).priority)
        (u := (s.storage d).resumed) ⟨rfl, rfl⟩ hlive.tid_eq rfl (fun h0 => absurd h0 hd)
        (by simp) (by simp)
      rw [hgoes, hgone]
      refine ⟨queues', ?_, hplaced⟩
      simp only [Sched.visitWaiting, hhead, hstate, hterm, htimeout, hdelay, if_true, hdeq,
        hlive.tid_eq]
      rw [hresume]
      rw [Sched.setThread_queues, henq]
      rfl
  · have hgoes : s.goesTo d = .ready (s.storage d).priority := if_neg (by simp [hstate])
    have hgone : s.gone d = s.storage d := if_pos hstate
    obtain ⟨queues', henq, hplaced⟩ := hout.put (q := .ready (s.storage d).priority)
      (u := s.storage d) ⟨hstate, rfl⟩ hlive.tid_eq rfl (fun h0 => absurd h0 hd) (by simp)
      (by simp)
    rw [hgoes, hgone]
    refine ⟨queues', ?_, hplaced⟩
    simp only [Sched.visitWaiting, hhead, hstate, hdeq]
    rw [henq, Sched.setThread_self]
    rfl

/-- The roll of the wait queue. -/
lemma roll_eq : ∃ queues, s.queues.roll .wait = some queues ∧
    Placed strict (s.setQueues queues) out
      (update L .wait (RollingScan.roll (L .wait))) := by
  obtain ⟨queues, L', hroll, hplaced, -⟩ := h.roll
  refine ⟨queues, hroll, ?_⟩
  have hholds : queues.Holds (update L .wait (RollingScan.roll (L .wait))) := by
    cases hcons : L .wait with
    | nil =>
      rw [h.holds.roll_nil hcons] at hroll
      cases hroll
      rw [RollingScan.roll, ← hcons, update_eq_self]
      exact h.holds
    | cons d l =>
      obtain ⟨queues', hroll', hholds⟩ := h.holds.roll hcons
      rw [hroll] at hroll'
      cases hroll'
      exact hholds
  rwa [← hholds.unique hplaced.holds]

end Placed

/-! ## The loop -/

namespace Sched

variable {s s₀ : Sched N} {t : Nat}

section

variable (ht : s.storage t = s₀.storage t)
include ht

lemma leaves_congr (hnow : s.now = s₀.now) :
    s.leaves t = s₀.leaves t := by
  simp [leaves, ht, hnow]

lemma awaits_congr (hnow : s.now = s₀.now) :
    s.awaits t = s₀.awaits t := by
  simp [awaits, ht, hnow]

lemma goesTo_congr : s.goesTo t = s₀.goesTo t := by
  simp [goesTo, ht]

lemma gone_congr : s.gone t = s₀.gone t := by
  simp [gone, ht]

end

/-- A thread that waits for a time to come stays. -/
lemma awaits_of_leaves (h : s.leaves t = true) : s.awaits t = false := by
  unfold leaves at h
  unfold awaits
  split at h
  · next hstate => simp [hstate]
  · rw [Bool.or_eq_true, Bool.and_eq_true, decide_eq_true_eq] at h
    rcases h with hterm | ⟨-, hdelay⟩
    · simp [hterm]
    · simp [Nat.not_lt.mpr hdelay]
  · contradiction
  · contradiction

/-- The shortest time that a list of threads has to wait. -/
def soonest (s : Sched N) (l : List Nat) (nd : Nat) : Nat :=
  l.foldl (fun nd t => updateNewDelay s.now (s.storage t).delay nd) nd

end Sched

/-- What some looks do; the records of the threads that are still in the queue are those of
`s₀`. -/
structure Scanned (s₀ s s' : Sched N) (n : Nat) (L L' : Place → List Nat) : Prop where
  now : s'.now = s₀.now
  wait : L' .wait = RollingScan.left s₀.leaves n (L .wait)
  others : ∀ q, q ≠ .wait → L' q =
    L q ++ (RollingScan.moved s₀.leaves n (L .wait)).filter fun t => decide (s₀.goesTo t = q)
  storage : ∀ t, s'.storage t =
    if t ∈ RollingScan.moved s₀.leaves n (L .wait) then s₀.gone t else s.storage t
  delayWq : s'.newDelayWq = s₀.soonest
    ((RollingScan.looks s₀.leaves n (L .wait)).filter s₀.awaits) s.newDelayWq
  delayDq : s'.newDelayDq = s.newDelayDq
  lookedAt : s.lookedAt n = RollingScan.looks s₀.leaves n (L .wait)

namespace Placed

variable {strict : Prop} {s s' : Sched N} {out : List Nat} {L L' : Place → List Nat} {d : Nat}
  {l : List Nat}

/-- What the loop of `schedule_waiting` does. -/
theorem visitAllWaiting_eq (s₀ : Sched N) (n : Nat) : ∀ {s : Sched N} {L : Place → List Nat},
    Placed strict s out L → Resumables s L → (∀ t ∈ L .wait, s.storage t = s₀.storage t) →
    s.now = s₀.now → n ≤ (L .wait).length →
    ∃ s' L', s.visitAllWaiting n = some s' ∧ Placed strict s' out L' ∧
      Scanned s₀ s s' n L L' := by
  induction n with
  | zero =>
    intro s L h _ _ hnow _
    refine ⟨s, L, rfl, h, ⟨hnow, rfl, fun q _ => ?_, fun t => ?_, rfl, rfl, rfl⟩⟩
    · simp [RollingScan.moved, RollingScan.looks]
    · simp [RollingScan.moved, RollingScan.looks]
  | succ n ih =>
    intro s L h hresumables hsame hnow hn
    have hne : L .wait ≠ [] := by
      intro hnil
      simp [hnil] at hn
    obtain ⟨d, l, hcons⟩ := List.exists_cons_of_ne_nil hne
    have hhead : s.queues.head .wait = some d := by rw [h.holds.head, hcons]; rfl
    have hdsame := hsame d (by simp [hcons])
    have hlength : n ≤ l.length := by simpa [hcons] using hn
    obtain ⟨hdl, -⟩ := List.nodup_cons.mp (hcons ▸ h.holds.nodup .wait)
    cases hleaves : s₀.leaves d with
    | false =>
      have hvisit := h.visitWaiting_stays hcons
        ((Sched.leaves_congr hdsame hnow).trans hleaves)
      have h₁ := h.setNewDelayWq (if s.awaits d = true then
        Sched.updateNewDelay s.now (s.storage d).delay s.newDelayWq else s.newDelayWq)
      obtain ⟨queues, hroll, h₂⟩ := h₁.roll_eq
      have hwait₂ : update L .wait (RollingScan.roll (L .wait)) .wait =
          RollingScan.turn s₀.leaves (d :: l) := by
        rw [update_self, hcons, RollingScan.turn_cons_of_not hleaves]
        rfl
      have hmem : ∀ t ∈ RollingScan.turn s₀.leaves (d :: l), t ∈ L .wait := by
        intro t ht
        rw [RollingScan.turn_cons_of_not hleaves] at ht
        simpa [hcons, or_comm] using ht
      obtain ⟨s', L', heq, h', hscan⟩ := ih h₂
        (by rw [Resumables, hwait₂]; exact fun t ht => hresumables t (hmem t ht))
        (by rw [hwait₂]; exact fun t ht => hsame t (hmem t ht)) hnow
        (by rw [hwait₂, RollingScan.turn_cons_of_not hleaves]; simp; omega)
      have hmoved : RollingScan.moved s₀.leaves (n + 1) (d :: l) =
          RollingScan.moved s₀.leaves n (RollingScan.turn s₀.leaves (d :: l)) := by
        rw [RollingScan.moved_cons, hleaves]
        rfl
      refine ⟨s', L', ?_, h', hscan.now, ?_, fun q hq => ?_, fun t => ?_, ?_,
        hscan.delayDq, ?_⟩
      · rw [Sched.visitAllWaiting, hvisit]
        dsimp only
        rw [hroll]
        exact heq
      · rw [hscan.wait, hwait₂, hcons]
        rfl
      · rw [hscan.others q hq, hwait₂, update_of_ne hq, hcons, hmoved]
      · rw [hscan.storage t, hwait₂, hcons, hmoved]
      · rw [hscan.delayWq, hwait₂, hcons, RollingScan.looks_cons]
        cases hawaits : s₀.awaits d with
        | true =>
          rw [List.filter_cons_of_pos hawaits, Sched.awaits_congr hdsame hnow, hawaits,
            if_pos rfl, hdsame, hnow]
          rfl
        | false =>
          rw [List.filter_cons_of_neg (by simp [hawaits]), Sched.awaits_congr hdsame hnow,
            hawaits, if_neg (by simp)]
      · rw [Sched.lookedAt, hhead, hvisit]
        dsimp only
        rw [hroll]
        dsimp only
        rw [hscan.lookedAt, hwait₂, hcons, RollingScan.looks_cons]
    | true =>
      obtain ⟨queues₁, hvisit, h₁⟩ := h.visitWaiting_leaves hresumables hcons
        ((Sched.leaves_congr hdsame hnow).trans hleaves)
      rw [Sched.goesTo_congr hdsame] at h₁
      rw [Sched.gone_congr hdsame] at hvisit h₁
      obtain ⟨queues, hroll, h₂⟩ := h₁.roll_eq
      have hgoes : s₀.goesTo d ≠ .wait := goesTo_ne_wait s₀ d
      have hwait₁ : update (update L .wait l) (s₀.goesTo d)
          (L (s₀.goesTo d) ++ [d]) .wait = l := by
        rw [update_of_ne hgoes.symm, update_self]
      rw [hwait₁] at h₂
      have hmem : ∀ t ∈ RollingScan.roll l, t ∈ L .wait ∧ t ≠ d := by
        intro t ht
        have htl := (RollingScan.roll_isRotated l).perm.mem_iff.mp ht
        refine ⟨by simp [hcons, htl], ?_⟩
        rintro rfl
        exact hdl htl
      have hrecord : ∀ t, t ≠ d →
          ((s.setThread d (s₀.gone d)).setQueues queues).storage t = s.storage t :=
        fun t htd => update_of_ne htd _ _
      obtain ⟨s', L', heq, h', hscan⟩ := ih h₂
        (by
          rw [Resumables, update_self]
          intro t ht
          obtain ⟨htw, htd⟩ := hmem t ht
          rw [show Sched.storage _ t = s.storage t from hrecord t htd]
          exact hresumables t htw)
        (by
          rw [update_self]
          intro t ht
          obtain ⟨htw, htd⟩ := hmem t ht
          exact (hrecord t htd).trans (hsame t htw))
        hnow
        (by
          rw [update_self, (RollingScan.roll_isRotated l).perm.length_eq]
          exact hlength)
      have hmoved : RollingScan.moved s₀.leaves (n + 1) (d :: l) =
          d :: RollingScan.moved s₀.leaves n (RollingScan.roll l) := by
        rw [RollingScan.moved_cons, hleaves, RollingScan.turn_cons_of hleaves]
        rfl
      have hdmoved : d ∉ RollingScan.moved s₀.leaves n (RollingScan.roll l) :=
        fun hd => (hmem d (RollingScan.mem_of_mem_moved hd)).2 rfl
      refine ⟨s', L', ?_, h', hscan.now, ?_, fun q hq => ?_, fun t => ?_, ?_,
        hscan.delayDq, ?_⟩
      · rw [Sched.visitAllWaiting, hvisit]
        dsimp only
        rw [hroll]
        exact heq
      · rw [hscan.wait, update_self, hcons, RollingScan.left,
          RollingScan.turn_cons_of hleaves]
      · rw [hscan.others q hq, update_self, update_of_ne hq, hcons, hmoved]
        by_cases hdq : s₀.goesTo d = q
        · subst hdq
          simp
        · rw [update_of_ne (Ne.symm hdq), update_of_ne hq,
            List.filter_cons_of_neg (by simpa using hdq)]
      · rw [hscan.storage t, update_self, hcons, hmoved]
        by_cases htd : t = d
        · subst htd
          rw [if_neg hdmoved, if_pos (List.mem_cons_self ..)]
          exact update_self ..
        · rw [hrecord t htd]
          simp [htd]
      · rw [hscan.delayWq, update_self, hcons, RollingScan.looks_cons,
          List.filter_cons_of_neg (by simp [Sched.awaits_of_leaves hleaves]),
          RollingScan.turn_cons_of hleaves]
        rfl
      · rw [Sched.lookedAt, hhead, hvisit]
        dsimp only
        rw [hroll]
        dsimp only
        rw [hscan.lookedAt, update_self, hcons, RollingScan.looks_cons,
          RollingScan.turn_cons_of hleaves]

end Placed

/-! ## Who is missed -/

namespace Sched

variable {s s' : Sched N}

/-- The threads that `schedule_waiting` moves to another queue, one after the other. -/
def movedOut (s : Sched N) : List Nat :=
  (({ s with newDelayWq := SCHED_DELAY_MAX } : Sched N).lookedAt (s.queues.count .wait)).filter
    s.leaves

/-- All that have to leave are moved to their queues in their order, and the others keep their
cyclic order. -/
structure MissesNobody (s s' : Sched N) : Prop where
  gone : ∀ t ∈ s'.queues.toList .wait, s.leaves t = false
  order : s.movedOut = (s.queues.toList .wait).filter s.leaves
  others : ∀ q, q ≠ .wait → s'.queues.toList q = s.queues.toList q ++
    (s.queues.toList .wait).filter fun t => s.leaves t && decide (s.goesTo t = q)
  stayers : (s'.queues.toList .wait).filter (fun t => !s.leaves t) ~r
    (s.queues.toList .wait).filter fun t => !s.leaves t

end Sched

/-- What `schedule_waiting` does. -/
lemma Placed.scheduleWaiting_eq {strict : Prop} {s : Sched N} {out : List Nat}
    {L : Place → List Nat} (h : Placed strict s out L) (hresumables : Placed.Resumables s L) :
    ∃ s' L', s.scheduleWaiting = some s' ∧ Placed strict s' out L' ∧
      Scanned s { s with newDelayWq := SCHED_DELAY_MAX } s' (L .wait).length L L' := by
  obtain ⟨s', L', heq, hplaced, hscan⟩ := Placed.visitAllWaiting_eq s (L .wait).length
    (h.setNewDelayWq SCHED_DELAY_MAX) hresumables (fun _ _ => rfl) rfl le_rfl
  refine ⟨s', L', ?_, hplaced, hscan⟩
  rw [Sched.scheduleWaiting, h.holds.count]
  exact heq

/-- The loop misses nobody exactly if the threads that have to leave are spread over the
queue. -/
theorem misses_nobody_iff {strict : Prop} {s : Sched N} {out : List Nat}
    {L : Place → List Nat} (hplaced : Placed strict s out L)
    (hresumables : Placed.Resumables s L) :
    ∃ s', s.scheduleWaiting = some s' ∧
      (s.MissesNobody s' ↔ RollingScan.Spread s.leaves (s.queues.toList .wait)) := by
  obtain ⟨s', L', heq, hplaced', hscan⟩ := hplaced.scheduleWaiting_eq hresumables
  refine ⟨s', heq, ?_⟩
  have hwait : s.queues.toList .wait = L .wait := hplaced.holds.toList
  have hmovedOut : s.movedOut = RollingScan.moved s.leaves (L .wait).length (L .wait) := by
    rw [Sched.movedOut, hplaced.holds.count, hscan.lookedAt]
    rfl
  rw [← RollingScan.moved_eq_iff (hwait ▸ hplaced.holds.nodup .wait), hwait, ← hmovedOut]
  constructor
  · intro h
    rw [h.order, hwait]
  · intro hmoved
    have hall := hmovedOut.symm.trans hmoved
    constructor
    · intro t ht
      rw [hplaced'.holds.toList, hscan.wait] at ht
      cases hleaves : s.leaves t with
      | false => rfl
      | true =>
        have hperm := RollingScan.moved_append_left (p := s.leaves) (L .wait).length (L .wait)
        have hnodup := hperm.nodup_iff.mpr (hplaced.holds.nodup .wait)
        have htl : t ∈ L .wait := hperm.mem_iff.mp (List.mem_append_right _ ht)
        have hmem : t ∈ (L .wait).filter s.leaves := List.mem_filter.mpr ⟨htl, hleaves⟩
        rw [← hall] at hmem
        exact absurd ht (List.disjoint_of_nodup_append hnodup hmem)
    · rw [hmoved, hwait]
    · intro q hq
      rw [hplaced'.holds.toList, hscan.others q hq, hall, List.filter_filter, hwait,
        hplaced.holds.toList]
      simp only [Bool.and_comm]
    · rw [hplaced'.holds.toList, hscan.wait, hwait]
      exact RollingScan.left_isRotated (L .wait).length (L .wait)

/-- Two threads wait for events with a time-out behind the timers thread, and time passes. -/
def waitersExpire : List Action :=
  twoThreads ++ [.eventInitQueue 6, .eventWatchQueue 6, .waitForEvents 6 5,
    .eventInitQueue 7, .eventWatchQueue 7, .waitForEvents 7 50, .tick 9]

theorem misses_nobody_waiters : ∃ k₀ k : System 4, ∃ s', boot 4 = some k₀ ∧
    PartialRuns System.exec (fun k a => k.Allowed a ∧ Spares True k a) k₀ k ∧
    k.resumeAll.sched.queues.toList .wait = [1, 2, 3] ∧ k.resumeAll.sched.leaves 2 = true ∧
    k.resumeAll.sched.scheduleWaiting = some s' ∧ k.resumeAll.sched.MissesNobody s' := by
  obtain ⟨k₀, k, hboot, hrun, hwait, h₁, h₂, h₃⟩ := exists_run (N := 4)
    (fun k a => k.Allowed a ∧ Spares True k a) waitersExpire
    (P := fun k => k.resumeAll.sched.queues.toList .wait = [1, 2, 3] ∧
      k.resumeAll.sched.leaves 1 = false ∧ k.resumeAll.sched.leaves 2 = true ∧
      k.resumeAll.sched.leaves 3 = false) (by decide)
  obtain ⟨L, hplaced⟩ := (Sound.runs hboot hrun).placed
  obtain ⟨s', heq, hiff⟩ := misses_nobody_iff hplaced.resumeAll (hplaced.resumeAll.waiting trivial)
  refine ⟨k₀, k, s', hboot, hrun, hwait, h₂, heq, hiff.mpr ?_⟩
  rw [hwait]
  simp [RollingScan.Spread, RollingScan.Apart, h₁, h₂, h₃]

/-- Of two neighbours whose time has come the second one is left behind. -/
theorem misses_neighbour : ∃ k₀ k : System 4, ∃ s', boot 4 = some k₀ ∧
    PartialRuns System.exec (fun k a => k.Allowed a ∧ Spares True k a) k₀ k ∧
    k.resumeAll.sched.scheduleWaiting = some s' ∧ 3 ∈ s'.queues.toList .wait ∧
    k.resumeAll.sched.leaves 3 = true ∧ ¬k.resumeAll.sched.MissesNobody s' := by
  obtain ⟨k₀, k, hboot, hrun, ⟨s', heq, hmem⟩, hleaves⟩ := exists_run (N := 4)
    (fun k a => k.Allowed a ∧ Spares True k a) (waitersExpire ++ [.tick 99])
    (P := fun k => (∃ s' ∈ k.resumeAll.sched.scheduleWaiting, 3 ∈ s'.queues.toList .wait) ∧
      k.resumeAll.sched.leaves 3 = true) (by decide)
  refine ⟨k₀, k, s', hboot, hrun, heq, hmem, hleaves, fun hall => ?_⟩
  exact Bool.false_ne_true ((hall.gone 3 hmem).symm.trans hleaves)

end DiegOS.Kernel
