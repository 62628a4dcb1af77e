import DiegOS.Kernel.Calls
import DiegOS.Kernel.Entries

/-!
# Waking up

The loops of `resume_on_events`, `resume_on_barriers`,
`resume_on_io_wait` and `resume_on_poll` resume threads one after the other.
Each of them is one change of all the records at once.

Main results:

- Theorem `resumeSet_eq`: the loop over a set of threads wakes those that wait for
  its flags, and empties the set.
- Theorem `System.resumeOnEvents_eq`: the same for the watched event queues.
- Theorem `Placed.wakeAll`: a woken thread stays in its queue.
-/

namespace DiegOS.Kernel

open Lib

variable {N : Nat}

/-- The thread waits for one of the flags. -/
def Sched.Resumable (s : Sched N) (flags : WaitFlags) (t : Nat) : Prop :=
  s.Live t ∧ (s.storage t).state = .waiting ∧ flags.inter (s.storage t).wait ≠ .none

instance (s : Sched N) (flags : WaitFlags) (t : Nat) : Decidable (s.Resumable flags t) :=
  inferInstanceAs (Decidable (_ ∧ _ ∧ _))

/-- All threads of a set that wait for one of the flags are resumed. -/
def Sched.wakeAll (s : Sched N) (flags : WaitFlags) (T : Nat → Bool) : Sched N :=
  { s with
    storage := fun t =>
      if T t = true ∧ s.Resumable flags t then (s.storage t).resumed else s.storage t }

namespace Sched

variable {s : Sched N} {flags flags' : WaitFlags} {T T' : Nat → Bool} {t : Nat}

lemma wakeAll_storage_of (hT : T t = true) (ht : s.Resumable flags t) :
    (s.wakeAll flags T).storage t = (s.storage t).resumed := if_pos ⟨hT, ht⟩

lemma wakeAll_storage_of_not (h : ¬(T t = true ∧ s.Resumable flags t)) :
    (s.wakeAll flags T).storage t = s.storage t := if_neg h

/-- A thread is left alone or resumed. -/
lemma wakeAll_cases (s : Sched N) (flags : WaitFlags) (T : Nat → Bool) (t : Nat) :
    (s.wakeAll flags T).storage t = s.storage t ∨
      T t = true ∧ s.Resumable flags t ∧
        (s.wakeAll flags T).storage t = (s.storage t).resumed := by
  by_cases h : T t = true ∧ s.Resumable flags t
  · exact .inr ⟨h.1, h.2, wakeAll_storage_of h.1 h.2⟩
  · exact .inl (wakeAll_storage_of_not h)

@[simp] lemma wakeAll_tid : ((s.wakeAll flags T).storage t).tid = (s.storage t).tid := by
  rcases wakeAll_cases s flags T t with h | ⟨-, -, h⟩
  · rw [h]
  · rw [h]
    rfl

@[simp] lemma wakeAll_priority :
    ((s.wakeAll flags T).storage t).priority = (s.storage t).priority := by
  rcases wakeAll_cases s flags T t with h | ⟨-, -, h⟩
  · rw [h]
  · rw [h]
    rfl

@[simp] lemma wakeAll_terminate :
    ((s.wakeAll flags T).storage t).terminate = (s.storage t).terminate := by
  rcases wakeAll_cases s flags T t with h | ⟨-, -, h⟩
  · rw [h]
  · rw [h]
    rfl

@[simp] lemma wakeAll_live : (s.wakeAll flags T).Live t ↔ s.Live t := by
  simp [Sched.Live]

/-- Threads that still wait were left alone. -/
lemma wakeAll_waiting (h : ((s.wakeAll flags T).storage t).state = .waiting) :
    (s.wakeAll flags T).storage t = s.storage t := by
  rcases wakeAll_cases s flags T t with heq | ⟨-, -, heq⟩
  · exact heq
  · rw [heq] at h
    contradiction

/-- Threads that do not wait are left alone. -/
lemma wakeAll_of_ne_waiting (h : (s.storage t).state ≠ .waiting) :
    (s.wakeAll flags T).storage t = s.storage t :=
  wakeAll_storage_of_not fun hT => h hT.2.2.1

lemma wakeAll_none (h : ∀ t, T t = false) : s.wakeAll flags T = s := by
  have hstorage : (s.wakeAll flags T).storage = s.storage :=
    funext fun t => wakeAll_storage_of_not fun hT => by simp [h] at hT
  calc s.wakeAll flags T = { s with storage := (s.wakeAll flags T).storage } := rfl
    _ = s := by rw [hstorage]

lemma wakeAll_wakeAll :
    (s.wakeAll flags T).wakeAll flags T' = s.wakeAll flags fun t => T t || T' t := by
  have hstorage : ((s.wakeAll flags T).wakeAll flags T').storage =
      (s.wakeAll flags fun t => T t || T' t).storage := by
    funext t
    by_cases ht : s.Resumable flags t
    · cases hT : T t with
      | true =>
        have hready : ((s.wakeAll flags T).storage t).state ≠ .waiting := by
          rw [wakeAll_storage_of hT ht]
          simp [Thread.resumed]
        rw [wakeAll_of_ne_waiting hready, wakeAll_storage_of hT ht,
          wakeAll_storage_of (by simp [hT]) ht]
      | false =>
        have hsame : (s.wakeAll flags T).storage t = s.storage t :=
          wakeAll_storage_of_not (by simp [hT])
        have hres : (s.wakeAll flags T).Resumable flags t := by
          unfold Sched.Resumable
          rw [wakeAll_live, hsame]
          exact ht
        cases hT' : T' t with
        | true =>
          rw [wakeAll_storage_of hT' hres, hsame, wakeAll_storage_of (by simp [hT']) ht]
        | false =>
          rw [wakeAll_storage_of_not (by simp [hT']), hsame,
            wakeAll_storage_of_not (by simp [hT, hT'])]
    · have hsame : (s.wakeAll flags T).storage t = s.storage t :=
        wakeAll_storage_of_not fun h => ht h.2
      rw [wakeAll_storage_of_not, hsame, wakeAll_storage_of_not fun h => ht h.2]
      rintro ⟨-, hres⟩
      unfold Sched.Resumable at hres
      rw [wakeAll_live, hsame] at hres
      exact ht hres
  calc (s.wakeAll flags T).wakeAll flags T'
      = { s with storage := ((s.wakeAll flags T).wakeAll flags T').storage } := rfl
    _ = s.wakeAll flags fun t => T t || T' t := by rw [hstorage]; rfl

/-- `scheduler_resume_thread` for one thread. -/
lemma resumeThread_eq (s : Sched N) (flags : WaitFlags) (t : Nat) :
    (s.resumeThread flags t).1 = s.wakeAll flags fun i => i == t := by
  have hstorage : (s.resumeThread flags t).1.storage =
      (s.wakeAll flags fun i => i == t).storage := by
    funext i
    by_cases hres : s.Resumable flags t
    · have hget : s.getThread t = some (s.storage t) :=
        Sched.getThread_eq_some.mpr ⟨hres.1, rfl⟩
      have heq : s.resumeThread flags t = (s.setThread t (s.storage t).resumed, true) := by
        simp only [Sched.resumeThread, hget]
        rw [if_neg (by simp [hres.2.1]), if_neg hres.2.2]
        rfl
      rw [heq]
      by_cases hi : i = t
      · subst hi
        rw [wakeAll_storage_of (by simp) hres]
        simp
      · rw [wakeAll_storage_of_not (by simp [hi])]
        simp [hi]
    · rcases s.resumeThread_cases flags t with heq | ⟨hlive, hstate, hinter, -⟩
      · rw [heq, wakeAll_storage_of_not]
        rintro ⟨hi, h⟩
        exact hres ((beq_iff_eq.mp hi) ▸ h)
      · exact absurd ⟨hlive, hstate, hinter⟩ hres
  have hrest : (s.resumeThread flags t).1 =
      { s with storage := (s.resumeThread flags t).1.storage } := by
    rcases s.resumeThread_cases flags t with heq | ⟨-, -, -, heq⟩
    · rw [heq]
    · rw [heq]
      rfl
  rw [hrest, hstorage]
  rfl

end Sched

/-- Nothing more is resumed than what the set names, and the set is empty behind it. -/
theorem resumeSet_eq (flags : WaitFlags) (l : List Nat) : ∀ (s : Sched N) (ids : Nat → Bool),
    resumeSet flags l s ids =
      (s.wakeAll flags fun t => ids t && decide (t ∈ l),
        fun t => ids t && !decide (t ∈ l)) := by
  induction l with
  | nil =>
    intro s ids
    rw [resumeSet, Sched.wakeAll_none (by simp)]
    simp
  | cons a l ih =>
    intro s ids
    rw [resumeSet]
    cases ha : ids a with
    | false =>
      rw [if_neg (by simp), ih]
      congr 1
      · congr 1
        funext t
        by_cases hta : t = a
        · simp [hta, ha]
        · simp [hta]
      · funext t
        by_cases hta : t = a
        · simp [hta, ha]
        · simp [hta]
    | true =>
      rw [if_pos rfl, ih, Sched.resumeThread_eq, Sched.wakeAll_wakeAll]
      congr 1
      · congr 1
        funext t
        by_cases hta : t = a
        · simp [hta, ha]
        · simp [hta]
      · funext t
        by_cases hta : t = a
        · simp [hta]
        · simp [hta]

/-- Threads go on as they are or are resumed because of an event. -/
structure Awakens (s s' : Sched N) : Prop where
  running : s'.running = s.running
  queues : s'.queues = s.queues
  now : s'.now = s.now
  records : ∀ t, s'.storage t = s.storage t ∨
    s.Live t ∧ (s.storage t).state = .waiting ∧ (s.storage t).wait.events ≠ .none ∧
      s'.storage t = (s.storage t).resumed

namespace Awakens

variable {s s' s'' : Sched N} {t : Nat}

section

variable (h : Awakens s s')
include h

/-- Threads that still wait were left alone. -/
lemma waiting (hstate : (s'.storage t).state = .waiting) :
    s'.storage t = s.storage t := by
  rcases h.records t with heq | ⟨-, -, -, heq⟩
  · exact heq
  · rw [heq] at hstate
    contradiction

/-- Threads that do not wait are left alone. -/
lemma of_ne_waiting (hstate : (s.storage t).state ≠ .waiting) :
    s'.storage t = s.storage t := by
  rcases h.records t with heq | ⟨-, hwait, -⟩
  · exact heq
  · exact absurd hwait hstate

lemma tid : (s'.storage t).tid = (s.storage t).tid := by
  rcases h.records t with heq | ⟨-, -, -, heq⟩
  · rw [heq]
  · rw [heq]
    rfl

lemma live : s'.Live t ↔ s.Live t := by
  unfold Sched.Live
  rw [h.tid]

lemma trans (h' : Awakens s' s'') : Awakens s s'' := by
  refine ⟨h'.running.trans h.running, h'.queues.trans h.queues, h'.now.trans h.now,
    fun t => ?_⟩
  rcases h.records t with heq | ⟨hlive, hstate, hevents, heq⟩
  · rcases h'.records t with heq' | ⟨hlive, hstate, hevents, heq'⟩
    · exact .inl (heq'.trans heq)
    · rw [heq] at hstate hevents heq'
      exact .inr ⟨h.live.mp hlive, hstate, hevents, heq'⟩
  · have hsame : s''.storage t = s'.storage t := by
      apply h'.of_ne_waiting
      rw [heq]
      simp [Thread.resumed]
    exact .inr ⟨hlive, hstate, hevents, hsame.trans heq⟩

end

theorem wakeAll (s : Sched N) {flags : WaitFlags} (hflags : flags.timeout = false)
    (T : Nat → Bool) : Awakens s (s.wakeAll flags T) := by
  refine ⟨rfl, rfl, rfl, fun t => ?_⟩
  refine (s.wakeAll_cases flags T t).imp_right ?_
  rintro ⟨-, ⟨hlive, hstate, hinter⟩, heq⟩
  exact ⟨hlive, hstate, fun hnone => hinter (WaitFlags.inter_none hflags hnone), heq⟩

end Awakens

namespace Placed

variable {strict : Prop} {s : Sched N} {out : List Nat} {L : Place → List Nat}
  {flags : WaitFlags}

/-- Threads that are woken because of an event stay in the wait queue. -/
theorem wakeAll (h : Placed strict s out L) (hflags : flags.timeout = false)
    (T : Nat → Bool) : Placed strict (s.wakeAll flags T) out L := by
  have hevents : ∀ t, s.Resumable flags t → (s.storage t).wait.events ≠ .none :=
    fun t ht hnone => ht.2.2 (WaitFlags.inter_none hflags hnone)
  refine ⟨h.holds, fun t hlt hdead => ?_, fun q t ht => ?_, fun t ht => ?_, h.nodup,
    fun t hlive hout hstate => ?_, fun t hlive => ?_, h.idle, ?_, ?_, fun hstrict t hlive => ?_,
    fun hstrict t ht hstate => ?_, fun hstrict t ht => ?_⟩
  · rw [Sched.wakeAll_live] at hdead
    rw [Sched.wakeAll_storage_of_not fun hT => hdead hT.2.1]
    exact h.slots t hlt hdead
  · obtain ⟨hlive, hfit⟩ := h.member q t ht
    refine ⟨Sched.wakeAll_live.mpr hlive, ?_⟩
    rcases s.wakeAll_cases flags T t with heq | ⟨-, hres, heq⟩
    · rwa [heq]
    · rw [heq]
      cases q with
      | ready prio | dead => simp [Place.Fits, hres.2.1] at hfit
      | wait => exact .inr rfl
      | delay => exact absurd hfit.2 (hevents t hres)
  · obtain ⟨hlive, hnot⟩ := h.outside t ht
    exact ⟨Sched.wakeAll_live.mpr hlive, hnot⟩
  · have hsame := Sched.wakeAll_waiting hstate
    rw [hsame] at hstate ⊢
    exact h.waits t (Sched.wakeAll_live.mp hlive) hout hstate
  · rw [Sched.wakeAll_priority]
    exact h.prio t (Sched.wakeAll_live.mp hlive)
  · rw [Sched.wakeAll_terminate]
    exact h.lasts
  · rw [Sched.wakeAll_priority]
    exact h.lowest
  · exact h.everyone hstrict t (Sched.wakeAll_live.mp hlive)
  · have hsame := Sched.wakeAll_waiting hstate
    rw [hsame] at hstate ⊢
    exact h.waiting hstrict t ht hstate
  · rw [Sched.wakeAll_storage_of_not fun hT => hevents t hT.2 (h.member _ t ht).2.2]
    exact h.delayed hstrict t ht

end Placed

/-! ## What an update leaves alone -/

/-- Only threads that wait are changed. -/
def Still (s s' : Sched N) : Prop :=
  ∀ t, (s.storage t).state ≠ .waiting → s'.storage t = s.storage t

lemma LinkedQueues.dequeue_head {s s' : LinkedQueues Place Nat} {q : Place} {d : Nat}
    (h : s.dequeue q = some (some d, s')) : s.head q = some d := by
  unfold LinkedQueues.dequeue at h
  split at h
  · simp at h
  · split at h
    · contradiction
    · next hhead =>
        obtain ⟨hd, -⟩ := Prod.mk.inj (Option.some.inj h)
        rw [LinkedQueues.head, hhead, hd]

namespace Still

variable {s s' s'' : Sched N}

lemma of_eq (h : s'.storage = s.storage) : Still s s' := fun t _ => congrFun h t

lemma trans (h : Still s s') (h' : Still s' s'') : Still s s'' := by
  intro t hstate
  have heq := h t hstate
  rw [← heq] at hstate
  exact (h' t hstate).trans heq

lemma change {t : Nat} {t' : Thread} (ht : (s.storage t).state = .waiting) :
    Still s (s.setThread t t') := by
  intro i hi
  have hne : i ≠ t := by
    rintro rfl
    exact hi ht
  simp [hne]

lemma resumeThread (s : Sched N) (flags : WaitFlags) (t : Nat) :
    Still s (s.resumeThread flags t).1 := by
  rcases s.resumeThread_cases flags t with heq | ⟨-, hstate, -, heq⟩
  · rw [heq]
    exact of_eq rfl
  · rw [heq]
    exact change hstate

lemma visitWaiting (h : s.visitWaiting = some s') : Still s s' := by
  unfold Sched.visitWaiting at h
  split at h
  · contradiction
  · next ptr hhead =>
      dsimp only at h
      split at h
      · next hstate =>
          split at h
          · split at h
            · contradiction
            · cases h
              exact of_eq rfl
            · next temp queues hdeq =>
                have htemp : temp = ptr :=
                  Option.some.inj ((LinkedQueues.dequeue_head hdeq).symm.trans hhead)
                obtain ⟨queues', -, rfl⟩ := Option.map_eq_some_iff.mp h
                subst htemp
                exact change hstate
          · split at h
            · split at h
              · split at h
                · contradiction
                · cases h
                  exact of_eq rfl
                · next temp queues hdeq =>
                    have hres := resumeThread (s.setQueues queues)
                      (s.storage temp).wait.events (s.storage temp).tid
                    split at h
                    · obtain ⟨queues', -, rfl⟩ := Option.map_eq_some_iff.mp h
                      exact hres
                    · cases h
                      exact hres
              · cases h
                exact of_eq rfl
            · cases h
              exact of_eq rfl
      · split at h
        · contradiction
        · cases h
          exact of_eq rfl
        · obtain ⟨queues', -, rfl⟩ := Option.map_eq_some_iff.mp h
          exact of_eq rfl
      · cases h
        exact of_eq rfl
      · cases h
        exact of_eq rfl

lemma visitAllWaiting (n : Nat) : ∀ {s s' : Sched N},
    Sched.visitAllWaiting n s = some s' → Still s s' := by
  induction n with
  | zero =>
    intro s s' h
    cases h
    exact of_eq rfl
  | succ n ih =>
    intro s s' h
    rw [Sched.visitAllWaiting] at h
    split at h
    · contradiction
    · next s₁ hvisit =>
        split at h
        · contradiction
        · have hrest := ih h
          exact (visitWaiting hvisit).trans hrest

lemma visitDelayed (n : Nat) : ∀ {s s' : Sched N},
    Sched.visitDelayed n s = some s' → Still s s' := by
  induction n with
  | zero =>
    intro s s' h
    cases h
    exact of_eq rfl
  | succ n ih =>
    intro s s' h
    rw [Sched.visitDelayed] at h
    split at h
    · cases h
      exact of_eq rfl
    · split at h
      · split at h
        · contradiction
        · cases h
          exact of_eq rfl
        · next temp queues hdeq =>
            have hres := resumeThread (s.setQueues queues) .TIMEOUT (s.storage temp).tid
            dsimp only at h
            split at h
            · split at h
              · contradiction
              · have hrest := ih h
                exact trans hres hrest
            · have hrest := ih h
              exact trans hres hrest
      · cases h
        exact of_eq rfl

/-- The second half of an update changes only threads that wait. -/
lemma updateQueues (h : s.updateQueues = some s') : Still s s' := by
  obtain ⟨s₁, hwait, hrest⟩ := Option.bind_eq_some_iff.mp h
  obtain ⟨s₂, hdelay, rfl⟩ := Option.map_eq_some_iff.mp hrest
  have h₁ : Still s s₁ := by
    split at hwait
    · have hall := visitAllWaiting _ hwait
      exact hall
    · cases hwait
      exact of_eq rfl
  have h₂ : Still s₁ s₂ := by
    split at hdelay
    · obtain ⟨s₃, hvisit, rfl⟩ := Option.map_eq_some_iff.mp hdelay
      have hall := visitDelayed _ hvisit
      split
      · exact hall
      · exact hall
    · cases hdelay
      exact of_eq rfl
  exact h₁.trans h₂

end Still

/-! ## The four loops -/

namespace System

/-- Some queue of the list has an event for a thread that waits for events. -/
def eventDue (k : System N) (l : List Nat) (t : Nat) : Bool :=
  k.evIds t && decide (t ≠ THREAD_TID_INVALID) &&
    l.any fun q => decide ((k.evQueue q).threadid = t) && !(k.evQueue q).msgs.isEmpty

/-- The threads that are due are woken and forgotten. -/
theorem resumeOnEvents_eq (l : List Nat) : ∀ k : System N,
    resumeOnEvents l k = { k with
      sched := k.sched.wakeAll .EVENT (k.eventDue l)
      evIds := fun t => k.evIds t && !k.eventDue l t } := by
  induction l with
  | nil =>
    intro k
    rw [resumeOnEvents, Sched.wakeAll_none (by simp [eventDue])]
    simp [eventDue]
  | cons q l ih =>
    intro k
    rw [resumeOnEvents]
    split
    · next hdue =>
        obtain ⟨htid, hid, hmsgs⟩ := hdue
        have hkeep : ∀ t, ((k.evQueue q).threadid = t → k.eventDue (q :: l) t = true) ∧
            ((k.evQueue q).threadid ≠ t → k.eventDue (q :: l) t = k.eventDue l t) := by
          intro t
          constructor
          · rintro rfl
            simp [eventDue, hid, htid, hmsgs]
          · intro hne
            simp [eventDue, hne]
        have hafter : ∀ (s : Sched N) (t : Nat), System.eventDue { k with
            sched := s
            evIds := Function.update k.evIds (k.evQueue q).threadid false } l t =
            if (k.evQueue q).threadid = t then false else k.eventDue l t := by
          intro s t
          by_cases ht : (k.evQueue q).threadid = t
          · subst ht
            simp [eventDue]
          · simp [eventDue, ht, Ne.symm ht]
        rw [ih, Sched.resumeThread_eq, Sched.wakeAll_wakeAll]
        congr 1
        · congr 1
          funext t
          rw [hafter]
          by_cases ht : (k.evQueue q).threadid = t
          · simp [ht, (hkeep t).1 ht]
          · simp [ht, Ne.symm ht, (hkeep t).2 ht]
        · funext t
          rw [hafter]
          by_cases ht : (k.evQueue q).threadid = t
          · simp [ht, (hkeep t).1 ht]
          · simp [ht, Ne.symm ht, (hkeep t).2 ht]
    · next hdue =>
        have hsame : k.eventDue (q :: l) = k.eventDue l := by
          funext t
          by_cases ht : (k.evQueue q).threadid = t
          · subst ht
            simp only [eventDue, List.any_cons]
            by_cases htid : (k.evQueue q).threadid = THREAD_TID_INVALID
            · simp [htid]
            · cases hid : k.evIds (k.evQueue q).threadid with
              | false => simp
              | true =>
                have hnil : (k.evQueue q).msgs = [] := by
                  by_contra hne
                  exact hdue ⟨htid, hid, hne⟩
                simp [hnil]
          · simp [eventDue, ht]
        rw [ih, hsame]

/-- The barriers that are open wake those in their sets, and forget them. -/
lemma resumeOnBarriers_eq (l : List Nat) : ∀ k : System N, ∃ T bar,
    resumeOnBarriers l k = { k with
      sched := k.sched.wakeAll .BARRIER T
      barrier := bar } ∧
    (∀ b t, (bar b).ids t =
      ((k.barrier b).ids t && !(decide (b ∈ l) && (k.barrier b).isOpen && decide (t < N)))) ∧
    ∀ t, T t = true ↔
      t < N ∧ ∃ b ∈ l, (k.barrier b).isOpen = true ∧ (k.barrier b).ids t = true := by
  induction l with
  | nil =>
    intro k
    refine ⟨fun _ => false, k.barrier, ?_, by simp, by simp⟩
    rw [resumeOnBarriers, Sched.wakeAll_none fun _ => rfl]
  | cons b l ih =>
    intro k
    rw [resumeOnBarriers]
    cases hopen : (k.barrier b).isOpen with
    | false =>
      obtain ⟨T, bar, heq, hids, hT⟩ := ih k
      refine ⟨T, bar, ?_, fun b' t => ?_, fun t => ?_⟩
      · simpa [hopen] using heq
      · rw [hids]
        by_cases hb : b' = b
        · subst hb
          simp [hopen]
        · simp [hb]
      · rw [hT]
        simp [hopen]
    | true =>
      simp only [if_true, resumeSet_eq]
      obtain ⟨T, bar, heq, hids, hT⟩ := ih { k with
        sched := k.sched.wakeAll .BARRIER fun t =>
          (k.barrier b).ids t && decide (t ∈ List.range N)
        barrier := Function.update k.barrier b
          ⟨fun t => (k.barrier b).ids t && !decide (t ∈ List.range N),
            !(k.barrier b).autoclose, (k.barrier b).autoclose⟩ }
      refine ⟨fun t => (k.barrier b).ids t && decide (t ∈ List.range N) || T t, bar, ?_,
        fun b' t => ?_, fun t => ?_⟩
      · rw [heq]
        simp only [Sched.wakeAll_wakeAll]
      · rw [hids]
        by_cases hb : b' = b
        · subst hb
          by_cases hlt : t < N <;> simp [hopen, hlt]
        · simp [hb]
      · dsimp only
        rw [Bool.or_eq_true, hT]
        constructor
        · rintro (hself | ⟨hlt, b', hb', hopen', hid'⟩)
          · simp only [Bool.and_eq_true, decide_eq_true_eq, List.mem_range] at hself
            exact ⟨hself.2, b, by simp, hopen, hself.1⟩
          · by_cases hb : b' = b
            · subst hb
              simp [hlt] at hid'
            · simp only [Function.update_of_ne hb] at hopen' hid'
              exact ⟨hlt, b', by simp [hb'], hopen', hid'⟩
        · rintro ⟨hlt, b', hb', hopen', hid'⟩
          by_cases hb : b' = b
          · subst hb
            exact .inl (by simp [hid', hlt])
          · refine .inr ⟨hlt, b', (List.mem_cons.mp hb').resolve_left hb, ?_, ?_⟩
            · simpa [hb] using hopen'
            · simpa [hb] using hid'

/-- The threads of a set that have a slot. -/
def below (N : Nat) (ids : Nat → Bool) (t : Nat) : Bool := ids t && decide (t < N)

lemma resumeOnIoWait_eq (k : System N) :
    k.resumeOnIoWait = { k with
      sched := k.sched.wakeAll .COMPLETION (below N k.ioIds)
      ioIds := fun t => k.ioIds t && !decide (t < N) } := by
  simp only [resumeOnIoWait, resumeSet_eq, List.mem_range]
  rfl

lemma resumeOnPoll_eq (k : System N) :
    k.resumeOnPoll = { k with
      sched := k.sched.wakeAll .COMPLETION (below N k.pollIds)
      pollIds := fun t => k.pollIds t && !decide (t < N) } := by
  simp only [resumeOnPoll, resumeSet_eq, List.mem_range]
  rfl

/-- All that the first half of an update does. -/
lemma resumeAll_eq (k : System N) : ∃ T bar,
    k.resumeAll = { k with
      sched := (((k.sched.wakeAll .EVENT (k.eventDue k.evQueues)).wakeAll .BARRIER T).wakeAll
        .COMPLETION (below N k.ioIds)).wakeAll .COMPLETION (below N k.pollIds)
      evIds := fun t => k.evIds t && !k.eventDue k.evQueues t
      barrier := bar
      ioIds := fun t => k.ioIds t && !decide (t < N)
      pollIds := fun t => k.pollIds t && !decide (t < N) } ∧
    (∀ b t, (bar b).ids t = ((k.barrier b).ids t &&
      !(decide (b ∈ k.barriers) && (k.barrier b).isOpen && decide (t < N)))) ∧
    ∀ t, T t = true ↔
      t < N ∧ ∃ b ∈ k.barriers, (k.barrier b).isOpen = true ∧ (k.barrier b).ids t = true := by
  obtain ⟨T, bar, heq, hids, hT⟩ :=
    resumeOnBarriers_eq k.barriers (resumeOnEvents k.evQueues k)
  rw [resumeOnEvents_eq] at heq hids hT
  refine ⟨T, bar, ?_, hids, hT⟩
  unfold resumeAll
  rw [resumeOnEvents_eq]
  dsimp only
  rw [heq, resumeOnIoWait_eq, resumeOnPoll_eq]

lemma resumeAll_awakens (k : System N) : Awakens k.sched k.resumeAll.sched := by
  obtain ⟨T, bar, heq, -⟩ := k.resumeAll_eq
  rw [heq]
  exact (((Awakens.wakeAll _ rfl _).trans (.wakeAll _ rfl _)).trans (.wakeAll _ rfl _)).trans
    (.wakeAll _ rfl _)

end System

lemma Placed.resumeAll {strict : Prop} {k : System N} {out : List Nat}
    {L : Place → List Nat} (h : Placed strict k.sched out L) :
    Placed strict k.resumeAll.sched out L := by
  obtain ⟨T, bar, heq, -⟩ := k.resumeAll_eq
  rw [heq]
  exact (((h.wakeAll rfl _).wakeAll rfl _).wakeAll rfl _).wakeAll rfl _

namespace System

variable {strict : Prop} {k k' : System N} {out : List Nat} {L : Place → List Nat}

/-- What `update_schedule` does. -/
lemma updateSchedule_spec (h : Placed strict k.sched out L) : ∃ s L',
    k.updateSchedule = some (k.resumeAll.setSched s) ∧ s.running = k.sched.running ∧
      Still k.resumeAll.sched s ∧ Settles k.resumeAll.sched s ∧ Placed strict s out L' := by
  obtain ⟨s, L', heq, hrun, hsettles, hplaced⟩ := h.resumeAll.updateQueues
  refine ⟨s, L', ?_, hrun.trans k.resumeAll_awakens.running, Still.updateQueues heq, hsettles,
    hplaced⟩
  unfold updateSchedule
  dsimp only
  rw [heq]
  rfl

/-- What `schedule_thread` does. -/
lemma scheduleThread_spec (h : Placed strict k.sched [] L) : ∃ s r L',
    k.scheduleThread = some (k.resumeAll.setSched s) ∧ s.running = some r ∧
      Settles k.resumeAll.sched s ∧ Placed strict s [r] L' ∧
      (s.storage r).state = .running ∧ (s.storage r).terminate = false := by
  obtain ⟨s₁, L₁, heq₁, -, -, hsettles₁, hplaced₁⟩ := updateSchedule_spec h
  obtain ⟨s₂, r, L₂, heq₂, -, hrun, hsettles₂, hplaced₂, -, hstate, hterm⟩ := hplaced₁.pickThread
  refine ⟨s₂, r, L₂, ?_, hrun, hsettles₁.trans hsettles₂, hplaced₂, hstate, hterm⟩
  unfold scheduleThread
  rw [heq₁, Option.bind_some]
  rw [heq₂]
  rfl

end System

end DiegOS.Kernel
