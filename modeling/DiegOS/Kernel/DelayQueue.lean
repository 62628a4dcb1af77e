import DiegOS.Kernel.Frames
import DiegOS.Kernel.WaitScan
import DiegOS.Lib.Lists

/-!
# The delay queue

`scheduler_delay_thread` puts a thread behind those that wake up no later, and
`schedule_delayed` takes threads from the head as long as their time has come.

Main results:

- Theorem `Placed.scheduleDelayed_eq`: what `schedule_delayed` does to the queues and
  the records.
- Theorem `Placed.updateQueues_eq`: what the update of both queues does.
-/

namespace DiegOS.Kernel

open Lib Function

variable {N : Nat}

namespace Sched

/-- A thread in the delay queue whose wait was not cancelled. -/
def sleeps (s : Sched N) (t : Nat) : Bool := (s.storage t).wait.timeout

/-- The record of a thread that `schedule_delayed` takes out of the delay queue. -/
def woken (s : Sched N) (t : Nat) : Thread :=
  if s.sleeps t = true then (s.storage t).resumed else s.storage t

/-- The threads that the loop of `schedule_delayed` moves to a ready queue, one after the
other. -/
def wakings : Nat → Sched N → List Nat
  | 0, _ => []
  | n + 1, s =>
    match s.queues.head .delay with
    | none => []
    | some ptr =>
      if (s.storage ptr).delay ≤ s.now then
        match s.queues.dequeue .delay with
        | some (some temp, queues) =>
          let (s', ok) := (s.setQueues queues).resumeThread .TIMEOUT (s.storage temp).tid
          if ok then
            match s'.queues.enqueue (.ready (s'.storage temp).priority) temp with
            | none => []
            | some queues => temp :: wakings n (s'.setQueues queues)
          else wakings n s'
        | _ => []
      else []

end Sched

namespace Placed

variable {strict : Prop} {s s' s₀ : Sched N} {out : List Nat} {L L' : Place → List Nat}
  {d n : Nat} {l : List Nat}

variable (h : Placed strict s out L)
include h

/-- The loop ends in front of a thread whose time has not come. -/
lemma visitDelayed_late (hcons : L .delay = d :: l)
    (hlate : ¬wakesBy s s.now d = true) :
    s.visitDelayed n = some s ∧ s.wakings n = [] := by
  have hhead : s.queues.head .delay = some d := by rw [h.holds.head, hcons]; rfl
  have hdelay : ¬(s.storage d).delay ≤ s.now := by simpa [wakesBy] using hlate
  cases n with
  | zero => exact ⟨rfl, rfl⟩
  | succ n => simp [Sched.visitDelayed, Sched.wakings, hhead, hdelay]

/-- A thread that sleeps is woken when its time has come. -/
lemma visitDelayed_sleeps (hcons : L .delay = d :: l)
    (hdue : wakesBy s s.now d = true) (hsleeps : s.sleeps d = true) :
    ∃ queues, (∀ n, s.visitDelayed (n + 1) =
        ((s.setThread d (s.woken d)).setQueues queues).visitDelayed n) ∧
      (∀ n, s.wakings (n + 1) =
        d :: ((s.setThread d (s.woken d)).setQueues queues).wakings n) ∧
      Placed strict ((s.setThread d (s.woken d)).setQueues queues) out
        (update (update L .delay l) (.ready (s.storage d).priority)
          (L (.ready (s.storage d).priority) ++ [d])) := by
  have hmem : d ∈ L .delay := by simp [hcons]
  have hhead : s.queues.head .delay = some d := by rw [h.holds.head, hcons]; rfl
  have hdelay : (s.storage d).delay ≤ s.now := by simpa [wakesBy] using hdue
  obtain ⟨hlive, hstate, -⟩ := h.member _ d hmem
  have hd := h.ne_idle hmem (by simp)
  obtain ⟨queues, hdeq, hout⟩ := h.take hcons
  have hget : (s.setQueues queues).getThread d = some (s.storage d) :=
    Sched.getThread_eq_some.mpr ⟨hlive, rfl⟩
  have htimeout : (s.storage d).wait.timeout = true := hsleeps
  have hwoken : s.woken d = (s.storage d).resumed := if_pos hsleeps
  have hresume : (s.setQueues queues).resumeThread .TIMEOUT d =
      ((s.setQueues queues).setThread d (s.storage d).resumed, true) := by
    simp [Sched.resumeThread, hget, hstate, WaitFlags.inter, WaitFlags.TIMEOUT, WaitFlags.none,
      htimeout, Thread.resumed]
  obtain ⟨queues', henq, hplaced⟩ := hout.put (q := .ready (s.storage d).priority)
    (u := (s.storage d).resumed) ⟨rfl, rfl⟩ hlive.tid_eq rfl (fun h0 => absurd h0 hd)
    (by simp) (by simp)
  have hkeep : update L .delay l (.ready (s.storage d).priority) =
      L (.ready (s.storage d).priority) := update_of_ne (by simp) _ _
  have hprio : (((s.setQueues queues).setThread d (s.storage d).resumed).storage d).priority =
      (s.storage d).priority := by
    simp [Thread.resumed]
  rw [hwoken, ← hkeep]
  refine ⟨queues', fun n => ?_, fun n => ?_, hplaced⟩
  · simp only [Sched.visitDelayed, hhead, hdelay, if_true, hdeq, hlive.tid_eq]
    rw [hresume]
    rw [hprio, Sched.setThread_queues, henq]
    rfl
  · simp only [Sched.wakings, hhead, hdelay, if_true, hdeq, hlive.tid_eq]
    rw [hresume]
    rw [hprio, Sched.setThread_queues, henq]
    rfl

/-- A thread whose wait was cancelled is taken out when its time has come. -/
lemma visitDelayed_cancelled (hcons : L .delay = d :: l)
    (hdue : wakesBy s s.now d = true) (hsleeps : s.sleeps d = false) :
    ∃ queues, (∀ n, s.visitDelayed (n + 1) = (s.setQueues queues).visitDelayed n) ∧
      (∀ n, s.wakings (n + 1) = (s.setQueues queues).wakings n) ∧
      Placed strict (s.setQueues queues) out (update L .delay l) := by
  have hmem : d ∈ L .delay := by simp [hcons]
  have hhead : s.queues.head .delay = some d := by rw [h.holds.head, hcons]; rfl
  have hdelay : (s.storage d).delay ≤ s.now := by simpa [wakesBy] using hdue
  obtain ⟨hlive, hstate, hevents⟩ := h.member _ d hmem
  have hd := h.ne_idle hmem (by simp)
  obtain ⟨queues, hdeq, hout⟩ := h.take hcons
  have htimeout : (s.storage d).wait.timeout = false := hsleeps
  have hnot : ¬strict := by
    intro hstrict
    simp [h.delayed hstrict d hmem, WaitFlags.TIMEOUT] at htimeout
  have hget : (s.setQueues queues).getThread d = some (s.storage d) :=
    Sched.getThread_eq_some.mpr ⟨hlive, rfl⟩
  have hresume : (s.setQueues queues).resumeThread .TIMEOUT d = (s.setQueues queues, false) := by
    simp [Sched.resumeThread, hget, WaitFlags.inter, WaitFlags.TIMEOUT, WaitFlags.none, htimeout]
  refine ⟨queues, fun n => ?_, fun n => ?_, hout.drop hd (fun _ => hevents) hnot⟩
  · simp only [Sched.visitDelayed, hhead, hdelay, if_true, hdeq, hlive.tid_eq]
    rw [hresume]
    rfl
  · simp only [Sched.wakings, hhead, hdelay, if_true, hdeq, hlive.tid_eq]
    rw [hresume]
    rfl

end Placed

namespace Sched

/-- The threads of the delay queue that wake up by now, in the order of the queue. -/
def dueList (s₀ : Sched N) (l : List Nat) : List Nat :=
  l.takeWhile (Placed.wakesBy s₀ s₀.now)

/-- The time until the first thread of the delay queue wakes up. -/
def firstDelay (s : Sched N) : List Nat → Nat
  | [] => SCHED_DELAY_MAX
  | t :: _ => updateNewDelay s.now (s.storage t).delay SCHED_DELAY_MAX

end Sched

/-- What the loop of `schedule_delayed` does; the records of the threads that are still in
the queue are those of `s₀`. -/
structure Woken (s₀ s s' : Sched N) (L L' : Place → List Nat) : Prop where
  now : s'.now = s₀.now
  delay : L' .delay = (L .delay).dropWhile (Placed.wakesBy s₀ s₀.now)
  others : ∀ q, q ≠ .delay → L' q = L q ++ (s₀.dueList (L .delay)).filter fun t =>
    s₀.sleeps t && decide (.ready (s₀.storage t).priority = q)
  storage : ∀ t, s'.storage t =
    if t ∈ s₀.dueList (L .delay) then s₀.woken t else s.storage t
  newDelayWq : s'.newDelayWq = s.newDelayWq
  newDelayDq : s'.newDelayDq = s.newDelayDq
  wakings : s.wakings (L .delay).length = (s₀.dueList (L .delay)).filter s₀.sleeps

namespace Placed

variable {strict : Prop} {s s' s₀ : Sched N} {out : List Nat} {L L' : Place → List Nat}
  {d : Nat} {l : List Nat}

lemma visitDelayed_eq (s₀ : Sched N) (l : List Nat) : ∀ {s : Sched N} {L : Place → List Nat},
    Placed strict s out L → L .delay = l → (∀ t ∈ l, s.storage t = s₀.storage t) →
    s.now = s₀.now →
    ∃ s' L', s.visitDelayed l.length = some s' ∧ Placed strict s' out L' ∧
      Woken s₀ s s' L L' := by
  induction l with
  | nil =>
    intro s L h hnil _ hnow
    refine ⟨s, L, rfl, h, ⟨hnow, by simp [hnil], fun q _ => ?_, fun t => ?_, rfl, rfl, ?_⟩⟩
    · simp [Sched.dueList, hnil]
    · simp [Sched.dueList, hnil]
    · simp [Sched.dueList, hnil, Sched.wakings]
  | cons d l ih =>
    intro s L h hcons hsame hnow
    have hdsame := hsame d (by simp)
    obtain ⟨hdl, -⟩ := List.nodup_cons.mp (hcons ▸ h.holds.nodup .delay)
    have hlsame : ∀ t ∈ l, t ≠ d ∧ s.storage t = s₀.storage t := by
      intro t ht
      refine ⟨?_, hsame t (List.mem_cons_of_mem d ht)⟩
      rintro rfl
      exact hdl ht
    have hwakes : wakesBy s s.now d = wakesBy s₀ s₀.now d := by
      rw [wakesBy, wakesBy, hdsame, hnow]
    cases hdue : wakesBy s₀ s₀.now d with
    | false =>
      have hlate : ¬wakesBy s s.now d = true := by simp [hwakes, hdue]
      have hnone : s₀.dueList (d :: l) = [] := by simp [Sched.dueList, hdue]
      obtain ⟨hvisit, hwakings⟩ := h.visitDelayed_late (n := (d :: l).length) hcons hlate
      refine ⟨s, L, hvisit, h, ⟨hnow, ?_, fun q _ => ?_, fun t => ?_, rfl, rfl, ?_⟩⟩
      · rw [hcons, List.dropWhile_cons_of_neg (by simp [hdue])]
      · simp [hcons, hnone]
      · simp [hcons, hnone]
      · rw [hcons, hwakings, hnone]
        rfl
    | true =>
      have hlist : s₀.dueList (d :: l) = d :: s₀.dueList l := by simp [Sched.dueList, hdue]
      have hdrop : (d :: l).dropWhile (wakesBy s₀ s₀.now) =
          l.dropWhile (wakesBy s₀ s₀.now) := by simp [hdue]
      have hnot : d ∉ s₀.dueList l := fun hd => hdl (List.takeWhile_subset _ hd)
      have hwoken : s.woken d = s₀.woken d := by
        rw [Sched.woken, Sched.woken, Sched.sleeps, Sched.sleeps, hdsame]
      cases hsleeps : s₀.sleeps d with
      | true =>
        obtain ⟨queues, hvisit, hwakings, h₁⟩ := h.visitDelayed_sleeps hcons
          (hwakes.trans hdue) (by rw [Sched.sleeps, hdsame]; exact hsleeps)
        have hrecord : ∀ t, t ≠ d →
            ((s.setThread d (s.woken d)).setQueues queues).storage t = s.storage t :=
          fun t htd => update_of_ne htd _ _
        obtain ⟨s', L', heq, h', hwake⟩ := ih h₁
          (by rw [update_of_ne (by simp), update_self])
          (fun t ht => (hrecord t (hlsame t ht).1).trans (hlsame t ht).2) hnow
        have hdelay := hwake.delay
        have hothers := hwake.others
        have hstorage := hwake.storage
        have hrest := hwake.wakings
        rw [update_of_ne (by simp), update_self] at hdelay hrest
        simp only [update_of_ne (show Place.delay ≠ .ready _ by simp),
          update_self] at hothers hstorage
        refine ⟨s', L', (hvisit _).trans heq, h', ⟨hwake.now, ?_, fun q hq => ?_,
          fun t => ?_, hwake.newDelayWq, hwake.newDelayDq, ?_⟩⟩
        · rw [hdelay, hcons, hdrop]
        · rw [hothers q hq, hcons, hlist, hdsame]
          by_cases hqd : .ready (s₀.storage d).priority = q
          · subst hqd
            simp [hsleeps]
          · rw [update_of_ne (Ne.symm hqd), update_of_ne hq,
              List.filter_cons_of_neg (by simp [hqd])]
        · rw [hstorage t, hcons, hlist]
          by_cases htd : t = d
          · subst htd
            rw [if_neg hnot, if_pos (List.mem_cons_self ..), ← hwoken]
            exact update_self ..
          · rw [hrecord t htd]
            simp [htd]
        · rw [hcons, List.length_cons, hwakings, hrest, hlist,
            List.filter_cons_of_pos hsleeps]
      | false =>
        obtain ⟨queues, hvisit, hwakings, h₁⟩ := h.visitDelayed_cancelled hcons
          (hwakes.trans hdue) (by rw [Sched.sleeps, hdsame]; exact hsleeps)
        obtain ⟨s', L', heq, h', hwake⟩ := ih h₁ (update_self ..)
          (fun t ht => (hlsame t ht).2) hnow
        have hrest := hwake.wakings
        rw [update_self] at hrest
        refine ⟨s', L', (hvisit _).trans heq, h', ⟨hwake.now, ?_, fun q hq => ?_,
          fun t => ?_, hwake.newDelayWq, hwake.newDelayDq, ?_⟩⟩
        · rw [hwake.delay, update_self, hcons, hdrop]
        · rw [hwake.others q hq, update_self, update_of_ne hq, hcons, hlist,
            List.filter_cons_of_neg (by simp [hsleeps])]
        · rw [hwake.storage t, update_self, hcons, hlist]
          by_cases htd : t = d
          · subst htd
            rw [if_neg hnot, if_pos (List.mem_cons_self ..), Sched.woken,
              if_neg (by simp [hsleeps])]
            exact hdsame
          · simp [htd]
        · rw [hcons, List.length_cons, hwakings, hrest, hlist,
            List.filter_cons_of_neg (by simp [hsleeps])]

/-- What `schedule_delayed` does. -/
theorem scheduleDelayed_eq (h : Placed strict s out L) :
    ∃ s₁ L', s.scheduleDelayed = some
        { s₁ with newDelayDq := s.firstDelay (L' .delay) } ∧ Placed strict s₁ out L' ∧
      Woken s { s with newDelayDq := SCHED_DELAY_MAX } s₁ L L' := by
  have h' : Placed strict ({ s with newDelayDq := SCHED_DELAY_MAX } : Sched N) out L :=
    h.congr rfl rfl
  obtain ⟨s₁, L', heq, hplaced, hwoken⟩ := visitDelayed_eq s (L .delay) h' rfl
    (fun _ _ => rfl) rfl
  refine ⟨s₁, L', ?_, hplaced, hwoken⟩
  rw [Sched.scheduleDelayed, h.holds.count, heq, Option.map_some, hplaced.holds.head]
  cases hlist : L' .delay with
  | nil =>
    have hdelay : s₁.newDelayDq = SCHED_DELAY_MAX := hwoken.newDelayDq
    simp [Sched.firstDelay, ← hdelay]
  | cons t l =>
    have hnot : t ∉ s.dueList (L .delay) := by
      have hnodup := hplaced.holds.nodup .delay
      have hsplit : s.dueList (L .delay) ++ t :: l = L .delay := by
        rw [← hlist, hwoken.delay]
        exact List.takeWhile_append_dropWhile
      have hall := h.holds.nodup .delay
      rw [← hsplit] at hall
      exact fun ht => (List.nodup_append.mp hall).2.2 t ht t (by simp) rfl
    have hstorage : s₁.storage t = s.storage t := by
      rw [hwoken.storage t, if_neg hnot]
    have hdelay : s₁.newDelayDq = SCHED_DELAY_MAX := hwoken.newDelayDq
    simp [Sched.firstDelay, hstorage, hdelay, hwoken.now]

end Placed

/-! ## The actions -/

/-- What an action does to the queues up to `schedule_thread`. -/
inductive Requeued (s : Sched N) (a : Action) (s' : Sched N) : Prop where
  | same (h : s'.queues = s.queues)
  | appended {q : Place} {d : Nat} (hq : q ≠ .delay)
      (hd : s.Live d → (s.storage d).state = .running)
      (hwait : q = .wait → (s'.storage d).wait.events ≠ .none)
      (h : s.queues.enqueue q d = some s'.queues)
  | delayed {msecs r : Nat} (ha : a = .threadDelay msecs) (hmsecs : msecs ≠ 0)
      (hrun : s.running = some r)
      (hr : r ≠ THREAD_TID_IDLE) (hr1 : r ≠ THREAD_TID_TMRS)
      (h : s.delayThread msecs = some (s', true))

namespace System

variable {strict : Prop} {k k' k₀ : System N} {a : Action} {outcome : Outcome} {r : Nat}

section

variable (hsound : Sound strict k)
include hsound

lemma waitThread_requeued (hrun : k.sched.running = some r)
    (hr : r ≠ THREAD_TID_IDLE) {flags : WaitFlags} (hflags : flags.events ≠ .none) {msecs : Nat}
    {c : Call} {ok : Bool} (hwait : k₀.waitThread flags msecs c = some (k', ok))
    (hsched : k₀.sched = k.sched) : ok = true ∧ Requeued k.sched a k'.sched := by
  obtain ⟨hstate, -⟩ := hsound.runner r hrun
  unfold waitThread at hwait
  rw [hsched, hrun] at hwait
  obtain ⟨⟨s, b⟩, hs, hres⟩ := Option.map_eq_some_iff.mp hwait
  cases hres
  unfold Sched.waitThread at hs
  rw [hrun] at hs
  dsimp only at hs
  rw [if_neg (by rw [(hsound.live hrun).tid_eq]; exact hr), if_neg hflags] at hs
  obtain ⟨queues, henq, hres⟩ := Option.map_eq_some_iff.mp hs
  cases hres
  have hevents : (((k.sched.setThread r
      (Placed.waitingRecord k.sched r flags msecs)).setQueues queues).storage r).wait.events ≠
        .none := by
    change (update k.sched.storage r _ r).wait.events ≠ .none
    rw [update_self]
    exact hflags
  exact ⟨rfl, .appended (by simp) (fun _ => hstate) (fun _ => hevents) henq⟩

lemma suspendThread_requeued {s : Sched N}
    (hs : k.sched.suspendThread = some s) : Requeued k.sched a s := by
  unfold Sched.suspendThread at hs
  split at hs
  · contradiction
  · next r hrun =>
      obtain ⟨queues, henq, rfl⟩ := Option.map_eq_some_iff.mp hs
      exact .appended (by simp) (fun _ => (hsound.runner r hrun).1) (by simp) henq

lemma terminate_requeued
    (hact : k.threadTerminate = some (k', outcome)) : Requeued k.sched a k'.sched := by
  unfold threadTerminate at hact
  split at hact
  · contradiction
  · next r hrun =>
      obtain ⟨hstate, -⟩ := hsound.runner r hrun
      rw [(hsound.live hrun).tid_eq] at hact
      obtain ⟨k₁, hremove, hres⟩ := Option.map_eq_some_iff.mp hact
      cases hres
      obtain ⟨-, -, -, hcases⟩ := removeThread_cases hremove
      rcases hcases with ⟨-, queues, henq, rfl⟩ | ⟨hwait, -⟩ | ⟨hready, -⟩
      · exact .appended (by simp) (fun _ => hstate) (by simp) henq
      · rw [hstate] at hwait
        contradiction
      · rw [hstate] at hready
        contradiction

lemma create_requeued {name : List UInt8} {prio : Nat}
    (hact : k.threadCreate name prio = some (k', outcome)) : Requeued k.sched a k'.sched := by
  obtain ⟨L, hplaced⟩ := hsound.placed
  unfold threadCreate at hact
  split at hact
  · contradiction
  · next s tid hinit =>
      rcases hplaced.initThread hsound.size hinit with ⟨rfl, rfl⟩ | ⟨hlt, hdead, rfl, -⟩
      · rw [if_pos rfl] at hact
        cases hact
        exact .same rfl
      · rw [if_neg (Nat.ne_of_lt (Nat.lt_trans hlt hsound.size))] at hact
        split at hact
        · next s₁ hadd =>
            cases hact
            unfold Sched.addThread at hadd
            split at hadd
            · simp at hadd
            · split at hadd
              · simp at hadd
              · obtain ⟨queues, henq, hres⟩ := Option.map_eq_some_iff.mp hadd
                cases hres
                exact .appended (by simp) (fun hlive => absurd hlive hdead) (by simp) henq
        · contradiction

end

lemma kill_requeued (hspares : Spares False k (.threadKill r))
    (hact : k.threadKill r = some (k', outcome)) : Requeued k.sched a k'.sched := by
  unfold threadKill at hact
  split at hact
  · cases hact
    exact .same rfl
  · obtain ⟨k₁, hremove, hres⟩ := Option.map_eq_some_iff.mp hact
    cases hres
    obtain ⟨hlive, -, -, hcases⟩ := removeThread_cases hremove
    rcases hcases with ⟨hstate, queues, henq, rfl⟩ | ⟨hstate, k₂, hcancel, rfl⟩ | ⟨-, rfl⟩
    · exact .appended (by simp) (fun _ => hstate) (by simp) henq
    · refine .same ?_
      rw [cancelWait_sched (hspares hlive hstate).1 hcancel]
      rfl
    · exact .same rfl

/-- What the actions do to the queues. -/
lemma act_requeued (hsound : Sound strict k) (hallowed : k.Allowed a)
    (hspares : Spares False k a) (hact : k.act a = some (k', outcome))
    (hmay : a ≠ .threadMaySuspend) : Requeued k.sched a k'.sched := by
  cases hsound.effect hallowed hact with
  | created => exact create_requeued hsound hact
  | suspended hrun =>
    obtain ⟨s, hs, hres⟩ := Option.map_eq_some_iff.mp hact
    rw [← (Prod.mk.inj hres).1]
    exact suspendThread_requeued hsound hs
  | stayed | gaveWay => exact absurd rfl hmay
  | @delayed r msecs queues hrun =>
    change k.threadDelay msecs = _ at hact
    unfold threadDelay at hact
    split at hact
    · simp at hact
    · next hmsecs =>
      split at hact
      · next s hs =>
          obtain ⟨hk, -⟩ := Prod.mk.inj (Option.some.inj hact)
          have hguard : ¬((k.sched.storage r).tid = THREAD_TID_IDLE ∨
              (k.sched.storage r).tid = THREAD_TID_TMRS) := by
            intro hor
            rw [Sched.delayThread, hrun] at hs
            dsimp only at hs
            rw [if_pos hor] at hs
            simp at hs
          rw [(hsound.live hrun).tid_eq] at hguard
          obtain ⟨hr, hr1⟩ := not_or.mp hguard
          rw [← hk]
          exact .delayed rfl hmsecs hrun hr hr1 hs
      · contradiction
  | terminated => exact terminate_requeued hsound hact
  | killed | killedReady | killedLost => exact kill_requeued hspares hact
  | @lockWaits r m msecs m' queues hm hrun hr hheld hlock =>
    change k.threadLockMutexTimed m msecs = _ at hact
    unfold threadLockMutexTimed at hact
    rw [if_pos hm, hrun] at hact
    dsimp only at hact
    split at hact
    · obtain ⟨⟨k₁, ok⟩, hwait, hres⟩ := Option.map_eq_some_iff.mp hact
      have hflags : WaitFlags.MUTEX.events ≠ .none := by decide
      rw [← (Prod.mk.inj hres).1]
      exact (waitThread_requeued hsound hrun hr hflags hwait rfl).2
    · simp at hact
  | @eventWaits r q msecs queues hq hrun hr hwatch hempty =>
    change k.waitForEventsTimed q msecs = _ at hact
    unfold waitForEventsTimed at hact
    rw [if_pos hq, hrun] at hact
    dsimp only at hact
    rw [if_neg (by simp [hwatch, (hsound.live hrun).tid_eq]), if_neg (by simp [hempty])] at hact
    obtain ⟨⟨k₁, ok⟩, hwait, hres⟩ := Option.map_eq_some_iff.mp hact
    have hflags : WaitFlags.EVENT.events ≠ .none := by decide
    obtain ⟨rfl, hqueued⟩ := waitThread_requeued (a := .waitForEvents q msecs) hsound hrun hr
      hflags hwait rfl
    have hsame := congrArg System.sched (Prod.mk.inj hres).1
    rw [← hsame]
    exact hqueued
  | @barrierWaits r b queues hb hrun hr hclosed =>
    change k.waitForBarrier b = _ at hact
    unfold waitForBarrier at hact
    rw [if_pos hb, if_neg (by simp [hclosed])] at hact
    obtain ⟨⟨k₁, ok⟩, hwait, hres⟩ := Option.map_eq_some_iff.mp hact
    have hflags : WaitFlags.BARRIER.events ≠ .none := by decide
    obtain ⟨rfl, hqueued⟩ := waitThread_requeued (a := .waitForBarrier b) hsound hrun hr
      hflags hwait rfl
    have hsame := congrArg System.sched (Prod.mk.inj hres).1
    rw [← hsame]
    exact hqueued
  | @ioWaits r w c msecs queues hrun hr hnew =>
    obtain ⟨⟨k₁, ok⟩, hwait, hres⟩ := Option.map_eq_some_iff.mp hact
    have hflags : WaitFlags.COMPLETION.events ≠ .none := by decide
    obtain ⟨rfl, hqueued⟩ := waitThread_requeued (a := .ioWait w c msecs) hsound hrun hr
      hflags hwait rfl
    have hsame := congrArg System.sched (Prod.mk.inj hres).1
    rw [← hsame]
    exact hqueued
  | @pollWaits r table fds timeout again k₁ queues hrun hr hfirst hquiet htimeout =>
    have hsched := pollFirst_sched table fds (k.withTable table)
    change k.poll table fds timeout again = _ at hact
    unfold poll at hact
    split at hact
    · simp at hact
    · rw [withTable] at hfirst hsched
      dsimp only at hact
      rw [hfirst] at hact hsched
      dsimp only at hact
      rw [if_pos ⟨hquiet, htimeout⟩] at hact
      obtain ⟨⟨k₂, ok⟩, hwait, hrest⟩ := Option.bind_eq_some_iff.mp hact
      have hflags : WaitFlags.COMPLETION.events ≠ .none := by decide
      obtain ⟨rfl, hqueued⟩ := waitThread_requeued (a := .poll table fds timeout again) hsound
        hrun hr hflags hwait hsched
      rw [← (Prod.mk.inj (Option.some.inj hrest)).1]
      exact hqueued
  | barrierDone =>
    obtain ⟨_, _, heq, -⟩ := resumeOnBarriers_eq k.barriers k
    rw [heq]
    exact .same rfl
  | ioResumed hresume =>
    rw [(resumeItems_same hresume).sched]
    exact .same rfl
  | pollFailed hfirst hclean | polled hfirst hclean =>
    rw [((pollFirst_same hfirst).trans (cleanup_same hclean)).sched]
    exact .same rfl
  | pollFinished hrun hcall hclean =>
    rw [(cleanup_same hclean).sched]
    exact .same rfl
  | _ => exact .same rfl

end System

/-! ## The lists -/

/-- What an action does to the lists that the queues hold. -/
inductive Relisted (s : Sched N) (a : Action) (s' : Sched N) (L : Place → List Nat) :
    (Place → List Nat) → Prop where
  | same : Relisted s a s' L L
  | appended {q : Place} {d : Nat} (hq : q ≠ .delay)
      (hwait : q = .wait → (s'.storage d).wait.events ≠ .none) :
      Relisted s a s' L (Function.update L q (L q ++ [d]))
  | delayed {msecs r : Nat} (ha : a = .threadDelay msecs) (hmsecs : msecs ≠ 0)
      (hrun : s.running = some r) (hr : s'.storage r = Placed.delayedRecord s r msecs) :
      Relisted s a s' L
        (Function.update L .delay (Placed.delayedList s L r (msecs + s.now)))

lemma Placed.relisted {strict : Prop} {s s' : Sched N} {a : Action} {out : List Nat}
    {L L' : Place → List Nat} (h : Placed strict s s.running.toList L)
    (hreq : Requeued s a s') (h' : Placed strict s' out L') : Relisted s a s' L L' := by
  cases hreq with
  | same heq =>
    obtain rfl : L' = L := h.holds.unique (heq ▸ h'.holds)
    exact .same
  | @appended q d hq hd hwait heq =>
    have hnot : ∀ j, d ∉ L j := by
      intro j hj
      exact h.not_mem_of_running (hd (h.member j d hj).1) j hj
    obtain ⟨queues, henq, hholds⟩ := h.holds.enqueue (i := q) hnot
    rw [heq] at henq
    cases henq
    obtain rfl : L' = _ := hholds.unique h'.holds
    exact .appended hq hwait
  | @delayed msecs r ha hmsecs hrun hr hr1 heq =>
    rw [hrun] at h
    obtain ⟨queues, hdelay, hplaced⟩ := h.delayThread hrun hr hr1 msecs
    rw [heq] at hdelay
    obtain rfl : s' = _ := (Prod.mk.inj (Option.some.inj hdelay)).1
    obtain rfl : L' = _ := hplaced.holds.unique h'.holds
    exact .delayed ha hmsecs hrun (update_self ..)

/-- The threads in the delay queue keep their times. -/
lemma Effect.delay_kept {strict : Prop} {k k' : System N} {a : Action} {outcome : Outcome}
    (h : Effect k a k' outcome) (hsound : Sound strict k) (hspares : Spares False k a)
    (hmay : a ≠ .threadMaySuspend) {out : List Nat} {L : Place → List Nat}
    (hplaced : Placed strict k.sched out L) {t : Nat} (ht : t ∈ L .delay) :
    (k'.sched.storage t).delay = (k.sched.storage t).delay := by
  obtain ⟨hlive, hstate, hevents⟩ := hplaced.member .delay t ht
  by_cases hkill : a = .threadKill t
  · subst hkill
    cases h with
    | unchanged => rfl
    | killed _ _ _ hwaits hcancel =>
      have hsched := System.cancelWait_sched (hspares hlive hwaits).1 hcancel
      rw [hsched, Sched.setThread_storage, update_self]
    | killedReady | killedLost =>
      change (update k.sched.storage t _ t).delay = _
      rw [update_self]
  · rcases h.waiting_record hsound hlive hstate hkill hmay with heq | ⟨-, hflag⟩
    · rw [heq]
    · have hmutex := congrArg WaitFlags.mutex hevents
      have hbarrier := congrArg WaitFlags.barrier hevents
      rcases hflag with ⟨hm, -⟩ | ⟨hb, -⟩
      · exact absurd (hm.symm.trans hmutex) (by decide)
      · exact absurd (hb.symm.trans hbarrier) (by decide)

/-! ## The update -/

/-- The part of `update_schedule` in front of the call of `schedule_delayed`. -/
def Sched.updateWaiting (s : Sched N) : Option (Sched N) :=
  if s.queues.count .wait ≠ 0 then s.scheduleWaiting else some s

/-- What the update of the queues does to the waiting and to the sleeping threads. -/
structure Updated (s s' : Sched N) (L L' : Place → List Nat) : Prop where
  wait : L' .wait = RollingScan.left s.leaves (L .wait).length (L .wait)
  delay : L' .delay = (L .delay).dropWhile (Placed.wakesBy s s.now)
  newDelayWq : s'.newDelayWq = if L .wait = [] then s.newDelayWq else
    s.soonest ((RollingScan.looks s.leaves (L .wait).length (L .wait)).filter s.awaits)
      SCHED_DELAY_MAX
  newDelayDq : s'.newDelayDq = if L .delay = [] then s.newDelayDq else s.firstDelay (L' .delay)
  period : s'.period = min s'.newDelayDq s'.newDelayWq
  storage : ∀ t ∈ L' .wait, s'.storage t = s.storage t

namespace Placed

variable {strict : Prop} {s s₁ s' : Sched N} {out : List Nat} {L L₁ L' : Place → List Nat}
  {l : List Nat} {t : Nat}

lemma wakesBy_congr (h : ∀ t ∈ l, s₁.storage t = s.storage t) (hnow : s₁.now = s.now) :
    l.dropWhile (wakesBy s₁ s₁.now) = l.dropWhile (wakesBy s s.now) ∧
      l.takeWhile (wakesBy s₁ s₁.now) = l.takeWhile (wakesBy s s.now) := by
  induction l with
  | nil => exact ⟨rfl, rfl⟩
  | cons d l ih =>
    obtain ⟨hdrop, htake⟩ := ih fun t ht => h t (List.mem_cons_of_mem d ht)
    have hd : wakesBy s₁ s₁.now d = wakesBy s s.now d := by
      rw [wakesBy, wakesBy, h d (by simp), hnow]
    simp only [List.dropWhile_cons, List.takeWhile_cons, hd, hdrop, htake, and_self]

lemma firstDelay_congr (h : ∀ t ∈ l, s₁.storage t = s.storage t) (hnow : s₁.now = s.now) :
    s₁.firstDelay l = s.firstDelay l := by
  cases l with
  | nil => rfl
  | cons t l => rw [Sched.firstDelay, Sched.firstDelay, h t (by simp), hnow]

/-- What the look at the waiting threads does. -/
lemma updateWaiting_eq (h : Placed strict s out L) (hresumables : Resumables s L) :
    ∃ s₁ L₁, s.updateWaiting = some s₁ ∧
      Placed strict s₁ out L₁ ∧ s₁.now = s.now ∧
      L₁ .wait = RollingScan.left s.leaves (L .wait).length (L .wait) ∧ L₁ .delay = L .delay ∧
      (∀ t ∈ L .delay, s₁.storage t = s.storage t) ∧
      (∀ t ∈ L₁ .wait, s₁.storage t = s.storage t) ∧ s₁.newDelayDq = s.newDelayDq ∧
      s₁.newDelayWq = if L .wait = [] then s.newDelayWq else
        s.soonest ((RollingScan.looks s.leaves (L .wait).length (L .wait)).filter s.awaits)
          SCHED_DELAY_MAX := by
  rw [Sched.updateWaiting, h.holds.count]
  by_cases hnil : L .wait = []
  · exact ⟨s, L, by simp [hnil], h, rfl, by simp [hnil, RollingScan.left], rfl, fun _ _ => rfl,
      fun _ _ => rfl, rfl, by simp [hnil]⟩
  · obtain ⟨s₁, L₁, heq, hplaced, hscan⟩ := h.scheduleWaiting_eq hresumables
    have hlength : (L .wait).length ≠ 0 := fun hzero => hnil (List.length_eq_zero_iff.mp hzero)
    refine ⟨s₁, L₁, by rw [if_pos hlength, heq], hplaced, hscan.now, hscan.wait, ?_, ?_, ?_,
      hscan.delayDq, ?_⟩
    · rw [hscan.others .delay (by simp), List.filter_eq_nil_iff.mpr, List.append_nil]
      intro t _
      have hgoes : s.goesTo t ≠ .delay := by
        unfold Sched.goesTo
        split <;> simp
      simpa using hgoes
    · intro t ht
      rw [hscan.storage t, if_neg]
      intro hmoved
      exact h.holds.not_mem ht (by simp) (RollingScan.mem_of_mem_moved hmoved)
    · intro t ht
      rw [hscan.wait] at ht
      obtain ⟨-, hstays⟩ := RollingScan.of_mem_left (h.holds.nodup .wait) ht
      rw [hscan.storage t, if_neg]
      intro hmoved
      obtain ⟨hlooks, hleaves⟩ := List.mem_filter.mp hmoved
      rw [hstays hlooks] at hleaves
      contradiction
    · rw [hscan.delayWq, if_neg hnil]

/-- What the update of the queues does. -/
lemma updateQueues_eq (h : Placed strict s out L) (hresumables : Resumables s L)
    (heq : s.updateQueues = some s') (h' : Placed strict s' out L') : Updated s s' L L' := by
  obtain ⟨s₁, L₁, heq₁, hplaced₁, hnow₁, hwait₁, hdelay₁, hstorage₁, hkept₁, hdq₁, hwq₁⟩ :=
    h.updateWaiting_eq hresumables
  rw [Sched.updateWaiting] at heq₁
  rw [Sched.updateQueues, heq₁, Option.bind_some, hplaced₁.holds.count, hdelay₁] at heq
  by_cases hnil : L .delay = []
  · rw [if_neg (by simp [hnil]), Option.map_some] at heq
    obtain rfl : _ = s' := Option.some.inj heq
    obtain rfl : L' = L₁ := hplaced₁.holds.unique h'.holds
    exact ⟨hwait₁, by rw [hdelay₁, hnil]; rfl, hwq₁, by rw [if_pos hnil, ← hdq₁],
      (min_def_lt _ _).symm, hkept₁⟩
  · have hlength : (L .delay).length ≠ 0 := fun hzero => hnil (List.length_eq_zero_iff.mp hzero)
    obtain ⟨s₂, L₂, heq₂, hplaced₂, hwoken⟩ := hplaced₁.scheduleDelayed_eq
    rw [if_pos hlength, heq₂, Option.map_some] at heq
    obtain rfl : _ = s' := Option.some.inj heq
    obtain rfl : L' = L₂ := hplaced₂.holds.unique h'.holds
    have hdelay : L' .delay = (L .delay).dropWhile (wakesBy s s.now) := by
      rw [hwoken.delay, hdelay₁, (wakesBy_congr hstorage₁ hnow₁).1]
    have hwait : L' .wait = L₁ .wait := by
      rw [hwoken.others .wait (by simp)]
      simp
    refine ⟨hwait.trans hwait₁, hdelay, ?_, ?_, ?_, fun t ht => ?_⟩
    · exact hwoken.newDelayWq.trans hwq₁
    · rw [if_neg hnil]
      refine firstDelay_congr (fun t ht => hstorage₁ t ?_) hnow₁
      rw [hdelay] at ht
      exact (List.dropWhile_suffix _).subset ht
    · exact (min_def_lt _ _).symm
    · rw [hwait] at ht
      have hnot : t ∉ s₁.dueList (L₁ .delay) := fun hmem =>
        hplaced₁.holds.not_mem ht (by simp) (List.takeWhile_subset _ hmem)
      have hstorage := hwoken.storage t
      rw [if_neg hnot] at hstorage
      exact hstorage.trans (hkept₁ t ht)

variable {k k' : System N}

/-- What `update_schedule` does. -/
lemma updateSchedule_cases (h : Placed strict k.sched out L)
    (hresumables : Resumables k.resumeAll.sched L) (heq : k.updateSchedule = some k') :
    ∃ L', Settles k.resumeAll.sched k'.sched ∧ Placed strict k'.sched out L' ∧
      Updated k.resumeAll.sched k'.sched L L' := by
  have hall := h.resumeAll
  obtain ⟨s, L', hupdate, -, hsettles, hplaced'⟩ := hall.updateQueues
  unfold System.updateSchedule at heq
  dsimp only at heq
  rw [hupdate] at heq
  cases heq
  exact ⟨L', hsettles, hplaced', hall.updateQueues_eq hresumables hupdate hplaced'⟩

/-- The update in `schedule_thread`, and what `pick_thread` does behind it. -/
lemma scheduleThread_cases (h : Placed strict k.sched [] L)
    (heq : k.scheduleThread = some k') : ∃ k₁ L₁ r L₂, k.updateSchedule = some k₁ ∧
      Placed strict k₁.sched [] L₁ ∧ Settles k₁.sched k'.sched ∧
      Placed strict k'.sched [r] L₂ ∧ Rests k₁.sched k'.sched L₁ L₂ := by
  obtain ⟨k₁, hupdate, hrest⟩ := Option.bind_eq_some_iff.mp heq
  obtain ⟨s, hpick, rfl⟩ := Option.map_eq_some_iff.mp hrest
  obtain ⟨s₁, L₁, hupdate', -, -, -, hplaced₁⟩ := System.updateSchedule_spec h
  obtain rfl : k.resumeAll.setSched s₁ = k₁ := Option.some.inj (hupdate'.symm.trans hupdate)
  obtain ⟨s₂, r, L₂, hpick', -, -, hsettles, hplaced₂, hrests, -⟩ := hplaced₁.pickThread
  obtain rfl : s₂ = s := Option.some.inj (hpick'.symm.trans hpick)
  exact ⟨_, L₁, r, L₂, hupdate, hplaced₁, hsettles, hplaced₂, hrests⟩

end Placed

/-! ## The start -/

/-- Nobody waits or sleeps. -/
structure Sched.Idle (s : Sched N) : Prop where
  wait : s.queues.count .wait = 0
  delay : s.queues.count .delay = 0
  newDelayWq : s.newDelayWq = SCHED_DELAY_MAX
  newDelayDq : s.newDelayDq = SCHED_DELAY_MAX

namespace Sched.Idle

variable {s s' : Sched N}

lemma count_of_enqueue {q q' : Place} {d : Nat} {queues queues' : LinkedQueues Place Nat}
    (h : queues.enqueue q d = some queues') (hq : q' ≠ q) :
    queues'.count q' = queues.count q' := by
  unfold LinkedQueues.enqueue at h
  split at h
  · cases h
    simp [LinkedQueues.count, LinkedQueues.setNext, LinkedQueues.setInst, hq]
  · split at h
    · contradiction
    · cases h
      simp [LinkedQueues.count, LinkedQueues.setNext, LinkedQueues.setInst, hq]

lemma addFirst (h : s.Idle) {name : List UInt8} {prio tid : Nat}
    (heq : s.addFirst name prio tid = some s') : s'.Idle := by
  unfold Sched.addFirst at heq
  split at heq
  · contradiction
  · next s₁ newTid hinit =>
      have h₁ : s₁.Idle := by
        unfold Sched.initThread at hinit
        split at hinit
        · cases hinit
          exact h
        · split at hinit
          · cases hinit
            exact h
          · split at hinit
            · contradiction
            · cases hinit
              exact ⟨h.wait, h.delay, h.newDelayWq, h.newDelayDq⟩
      split at heq
      · contradiction
      · split at heq
        · next s₂ hadd =>
            cases heq
            unfold Sched.addThread at hadd
            split at hadd
            · simp at hadd
            · split at hadd
              · simp at hadd
              · obtain ⟨queues, henq, hres⟩ := Option.map_eq_some_iff.mp hadd
                cases hres
                exact ⟨(count_of_enqueue henq (by simp)).trans h₁.wait,
                  (count_of_enqueue henq (by simp)).trans h₁.delay, h₁.newDelayWq, h₁.newDelayDq⟩
        · contradiction

lemma start {k : System N} (hboot : boot N = some k) : k.sched.Idle := by
  obtain ⟨s₀, hlib, hrest⟩ := Option.bind_eq_some_iff.mp hboot
  obtain ⟨s₂, hthreads, rfl⟩ := Option.map_eq_some_iff.mp hrest
  obtain ⟨s₁, hidle, htimers⟩ := Option.bind_eq_some_iff.mp hthreads
  unfold initThreadLib at hlib
  split at hlib
  · contradiction
  · cases hlib
    have h₀ := addFirst ⟨rfl, rfl, rfl, rfl⟩ hidle
    exact h₀.addFirst htimers

lemma toList_wait (h : s.Idle) : s.queues.toList .wait = [] := by
  rw [LinkedQueues.toList, h.wait]
  rfl

lemma toList_delay (h : s.Idle) : s.queues.toList .delay = [] := by
  rw [LinkedQueues.toList, h.delay]
  rfl

end Sched.Idle

end DiegOS.Kernel
