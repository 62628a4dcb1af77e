import DiegOS.Kernel.Frames

/-!
# What an I/O wait leaves behind

`thread_io_resume` takes the items out of a wait queue; a thread whose time has passed
does not.  An observer notes, for every thread, the item of its last wait, how often the item
came back to the pool and if the queue was resumed since.

Main results:

- Theorem `io_waits_leave_nothing`: if no I/O wait runs into its time-out, every wait call
  returns its item once and tells the truth.
- Theorem `io_wait_left_behind`: what a time-out leaves behind.
-/

namespace DiegOS.Kernel

open Lib Function

variable {N : Nat}

/-! ## The observer -/

/-- What is noted of the last I/O wait of each thread. -/
structure IoNotes where
  chunk : Nat → Nat
  returned : Nat → Nat
  resumed : Nat → Bool

/-- The kernel and what an observer has noted. -/
structure Noted (N : Nat) where
  sys : System N
  notes : IoNotes

/-- The call waits for a queue. -/
def Call.waitsOn (w : Nat) : Call → Bool
  | .io w' _ => w' == w
  | _ => false

/-- The call is an I/O wait. -/
def Call.waitsForIo : Call → Bool
  | .io _ _ => true
  | _ => false

/-- The notes that go with an action. -/
def IoNotes.after (n : IoNotes) (k : System N) : Action → IoNotes
  | .ioWait _ a _ =>
    { chunk := Function.update n.chunk k.sched.runningTid a
      returned := Function.update n.returned k.sched.runningTid 0
      resumed := Function.update n.resumed k.sched.runningTid false }
  | .ioResume w =>
    { n with
      returned := fun t => n.returned t + (k.waitQueue w).countP fun a =>
        decide (a = n.chunk t ∧ k.item a = some (.owner t))
      resumed := fun t => n.resumed t || (k.call t).waitsOn w }
  | _ => n

/-- An action under observation. -/
def Noted.exec (x : Noted N) (a : Action) : Option (Noted N) :=
  (x.sys.exec a).map fun k => ⟨k, x.notes.after x.sys a⟩

/-- Nothing is noted yet. -/
def Noted.start (k : System N) : Noted N := ⟨k, ⟨fun _ => 0, fun _ => 0, fun _ => false⟩⟩

/-- A thread in no wait call has no item in any queue.  When a call returns, its item came back
to the pool once, and a wait with a time-out returns `EOK` exactly if the queue was
resumed.  A resume has a result, and the threads it marks all wait. -/
structure NothingLeft (x : Noted N) : Prop where
  left : ∀ t, (x.sys.call t).waitsForIo = false → ∀ w, ∀ a ∈ x.sys.waitQueue w,
    x.sys.item a ≠ some (.owner t)
  returns : ∀ r w msecs again k outcome, x.sys.sched.running = some r →
    x.sys.call r = .io w msecs → x.sys.act (.finish again) = some (k, outcome) →
    (∀ w', ∀ a ∈ k.waitQueue w', k.item a ≠ some (.owner r)) ∧ x.notes.returned r = 1 ∧
    (msecs ≠ 0 → (outcome = .returns .EOK ↔ x.notes.resumed r = true))
  resumes : ∀ w, ∃ k, x.sys.act (.ioResume w) = some (k, .returns .EOK) ∧
    ∀ t, k.ioIds t = true → (k.sched.storage t).state = .waiting

/-! ## The condition -/

/-- Neither a kill nor a poll. -/
def Peaceful : Action → Prop
  | .threadKill _ | .poll _ _ _ _ => False
  | _ => True

instance : DecidablePred Peaceful := fun a =>
  decidable_of_iff (¬a matches .threadKill _ | .poll _ _ _ _) (by cases a <;> simp [Peaceful])

namespace System

/-- The time of no I/O wait has passed, unless its queue was resumed. -/
def InTime (k : System N) : Prop :=
  ∀ t < N, (k.call t).waitsForIo = true → (k.sched.storage t).state = .waiting →
    (k.sched.storage t).wait.timeout = true →
    k.ioIds t = true ∨ k.sched.now < (k.sched.storage t).delay

instance (k : System N) : Decidable k.InTime := Nat.decidableBallLT _ _

/-- The action calls the scheduler. -/
def Schedules (k : System N) (a : Action) : Prop :=
  a = .threadMaySuspend ∨ ∃ p ∈ k.act a, p.2 = .schedules

instance (k : System N) (a : Action) : Decidable (k.Schedules a) :=
  inferInstanceAs (Decidable (_ ∨ ∃ p ∈ k.act a, _))

end System

/-- Whenever the scheduler is called, the I/O waits are in time. -/
def Timely (k : System N) (a : Action) : Prop := Peaceful a ∧ (k.Schedules a → k.InTime)

instance (k : System N) (a : Action) : Decidable (Timely k a) :=
  inferInstanceAs (Decidable (_ ∧ _))

/-! ## The loop of a resume -/

/-- A resume of a queue in which all items belong to threads. -/
lemma System.resumeItems_owners {w : Nat} (l : List Nat) : ∀ {k : System N},
    k.waitQueue w = l → l.Nodup → (∀ a ∈ l, ∃ t, k.item a = some (.owner t)) →
    resumeItems w l k = some { k with
      item := fun a => if a ∈ l then none else k.item a
      waitQueue := update k.waitQueue w []
      ioIds := fun t => k.ioIds t || decide (∃ a ∈ l, k.item a = some (.owner t)) } := by
  induction l with
  | nil =>
    intro k hqueue _ _
    have hsame : update k.waitQueue w [] = k.waitQueue := by
      rw [← hqueue, update_eq_self]
    simp [resumeItems, hsame]
  | cons a l ih =>
    intro k hqueue hnodup howners
    obtain ⟨hnot, hnodup'⟩ := List.nodup_cons.mp hnodup
    obtain ⟨t, hitem⟩ := howners a (.head _)
    have hother : ∀ b ∈ l, update k.item a none b = k.item b := by
      intro b hb
      apply update_of_ne
      rintro rfl
      exact hnot hb
    rw [resumeItems, hitem]
    dsimp only
    rw [ih]
    · simp only [removeItem, Option.some.injEq]
      congr 1
      · simp
      · ext b : 1
        by_cases hb : b ∈ l
        · simp [hb]
        · by_cases hba : b = a
          · simp [hba]
          · simp [hb, hba]
      · ext u : 1
        by_cases hu : u = t
        · simp [hu, hitem]
        · have hrest : (∃ b ∈ l, update k.item a none b = some (.owner u)) ↔
              ∃ b ∈ l, k.item b = some (.owner u) := by
            constructor
            · rintro ⟨b, hb, heq⟩
              exact ⟨b, hb, hother b hb ▸ heq⟩
            · rintro ⟨b, hb, heq⟩
              exact ⟨b, hb, (hother b hb).trans heq⟩
          simp [hu, Ne.symm hu, hitem, hrest]
    · simp [removeItem, hqueue]
    · exact hnodup'
    · intro b hb
      obtain ⟨u, hu⟩ := howners b (List.mem_cons_of_mem a hb)
      exact ⟨u, (hother b hb).trans hu⟩

/-! ## Frames -/

/-- The wait queues, their items and the marked threads are the same. -/
structure System.SameWaits (k k' : System N) : Prop where
  waitQueue : k'.waitQueue = k.waitQueue
  item : k'.item = k.item
  ioIds : k'.ioIds = k.ioIds
  pollIds : k'.pollIds = k.pollIds

namespace Effect

variable {k k' : System N} {a : Action} {outcome : Outcome} {t : Nat}

variable (h : Effect k a k' outcome)
include h

/-- Only waits and resumes change the wait queues. -/
lemma sameWaits (hpeace : Peaceful a) (hmay : a ≠ .threadMaySuspend)
    (hwait : ∀ w a' msecs, a ≠ .ioWait w a' msecs) (hresume : ∀ w, a ≠ .ioResume w)
    (hpoll : ∀ t table, k.call t ≠ .poll table) : System.SameWaits k k' := by
  cases h with
  | stayed | gaveWay => exact absurd rfl hmay
  | killed | killedReady | killedLost | pollFailed | pollWaits | polled => exact absurd hpeace id
  | ioWaits => exact absurd rfl (hwait _ _ _)
  | ioResumed => exact absurd rfl (hresume _)
  | pollFinished hrun hcall => exact absurd hcall (hpoll _ _)
  | barrierDone hb =>
    obtain ⟨_, _, heq, -⟩ := System.resumeOnBarriers_eq k.barriers k
    rw [heq]
    exact ⟨rfl, rfl, rfl, rfl⟩
  | _ => exact ⟨rfl, rfl, rfl, rfl⟩

/-- The clock does not move. -/
lemma now_eq (hpeace : Peaceful a) (hmay : a ≠ .threadMaySuspend)
    (htick : ∀ now, a ≠ .tick now) (hpoll : ∀ t table, k.call t ≠ .poll table) :
    k'.sched.now = k.sched.now := by
  cases h with
  | stayed | gaveWay => exact absurd rfl hmay
  | killed | killedReady | killedLost | pollFailed | pollWaits | polled => exact absurd hpeace id
  | ticked => exact absurd rfl (htick _)
  | ioResumed hresume => rw [(System.resumeItems_same hresume).sched]
  | pollFinished hrun hcall => exact absurd hcall (hpoll _ _)
  | barrierDone hb =>
    obtain ⟨_, _, heq, -⟩ := System.resumeOnBarriers_eq k.barriers k
    rw [heq]
    rfl
  | _ => rfl

/-- A live thread that does not run stays in its call. -/
lemma call_kept (hmay : a ≠ .threadMaySuspend)
    (hlive : k.sched.Live t) (hother : k.sched.running ≠ some t) : k'.call t = k.call t := by
  have hupdate : ∀ {r : Nat} {c : Call}, k.sched.running = some r →
      update k.call r c t = k.call t := by
    intro r c hrun
    apply update_of_ne
    rintro rfl
    exact hother hrun
  cases h with
  | stayed => exact absurd rfl hmay
  | gaveWay => exact absurd rfl hmay
  | killed _ _ _ _ hcancel => exact congrFun (System.cancelWait_others hcancel).1 t
  | pollFailed hfirst hclean =>
    rw [((System.pollFirst_same hfirst).trans (System.cleanup_same hclean)).call]
  | pollWaits hrun _ hfirst =>
    have hsame := (System.pollFirst_same hfirst).call
    unfold System.blocked
    dsimp only
    rw [hsame]
    exact hupdate hrun
  | polled hfirst hclean =>
    rw [((System.pollFirst_same hfirst).trans (System.cleanup_same hclean)).call]
  | created hlt hdead =>
    apply update_of_ne
    rintro rfl
    exact hdead hlive
  | ioResumed hresume => rw [(System.resumeItems_same hresume).call]
  | barrierDone hb =>
    obtain ⟨_, _, heq, -⟩ := System.resumeOnBarriers_eq k.barriers k
    rw [heq]
  | pollFinished hrun hcall hclean =>
    rw [(System.cleanup_same hclean).call]
    exact hupdate hrun
  | suspended hrun | delayed hrun | terminated hrun | lockWaits _ hrun | eventWaits _ hrun
  | barrierWaits _ hrun | ioWaits hrun | finished hrun => exact hupdate hrun
  | _ => rfl

end Effect

/-! ## The invariant -/

namespace Noted

/-- The thread waits until its item is taken out of the queue; a punctual one still has time. -/
structure Pending (punctual : Prop) (x : Noted N) (w t : Nat) : Prop where
  call : (x.sys.call t).waitsOn w = true
  waits : x.sys.sched.Waits t
  flags : (x.sys.sched.storage t).wait.events = .COMPLETION
  quiet : x.sys.ioIds t = false
  linked : x.notes.chunk t ∈ x.sys.waitQueue w
  item : x.sys.item (x.notes.chunk t) = some (.owner t)
  returned : x.notes.returned t = 0
  time : punctual → (x.sys.sched.storage t).wait.timeout = true →
    x.sys.sched.now < (x.sys.sched.storage t).delay

end Noted

/-- The item of the thread has come back to the pool because of a resume. -/
structure IoNotes.Released (n : IoNotes) (t : Nat) : Prop where
  returned : n.returned t = 1
  resumed : n.resumed t = true

/-- Every item belongs to a thread that waits, every marked thread waits, and a thread in an I/O
wait is pending or released. -/
structure Tracked (punctual : Prop) (x : Noted N) : Prop where
  items : ∀ w, ∀ a ∈ x.sys.waitQueue w, ∃ t, a = x.notes.chunk t ∧ x.Pending punctual w t
  calls : ∀ t w, (x.sys.call t).waitsOn w = true →
    x.Pending punctual w t ∨ x.notes.Released t
  bits : ∀ t, x.sys.ioIds t = true → x.sys.sched.Waits t ∧
    (x.sys.sched.storage t).wait.events = .COMPLETION ∧ x.notes.Released t
  nodup : ∀ w, (x.sys.waitQueue w).Nodup
  pollIds : ∀ t, x.sys.pollIds t = false
  pollCalls : ∀ t table, x.sys.call t ≠ .poll table

/-- A thread that only waits for a completion is left alone. -/
lemma Effect.completion_record {k k' : System N} {a : Action} {outcome : Outcome} {t : Nat}
    (h : Effect k a k' outcome) (hsound : Sound False k) (hpeace : Peaceful a)
    (hmay : a ≠ .threadMaySuspend) (hwaits : k.sched.Waits t)
    (hflags : (k.sched.storage t).wait.events = .COMPLETION) :
    k'.sched.storage t = k.sched.storage t := by
  have hkill : a ≠ .threadKill t := by
    rintro rfl
    exact hpeace
  have hmutex : (k.sched.storage t).wait.mutex = false := congrArg WaitFlags.mutex hflags
  have hbarrier : (k.sched.storage t).wait.barrier = false := congrArg WaitFlags.barrier hflags
  rcases h.waiting_record hsound hwaits.live hwaits.state hkill hmay with
    hsame | ⟨-, ⟨hflag, -⟩ | ⟨hflag, -⟩⟩
  · exact hsame
  · simp [hmutex] at hflag
  · simp [hbarrier] at hflag

lemma Sound.not_running {strict : Prop} {k : System N} {t : Nat} (h : Sound strict k)
    (hwaits : k.sched.Waits t) : k.sched.running ≠ some t := by
  intro hrun
  have hstate := hwaits.state
  rw [(h.runner t hrun).1] at hstate
  contradiction

namespace Noted.Pending

variable {punctual : Prop} {x : Noted N} {k' : System N} {n' : IoNotes} {w t : Nat}

variable (h : x.Pending punctual w t)
include h

lemma live_call : (x.sys.call t).waitsForIo = true := by
  have hcall := h.call
  revert hcall
  cases x.sys.call t <;> simp [Call.waitsOn, Call.waitsForIo]

/-- A thread waits for one queue. -/
lemma queue_eq {w' : Nat}
    (hcall : (x.sys.call t).waitsOn w' = true) : w = w' := by
  have hcall' := h.call
  revert hcall hcall'
  cases x.sys.call t with
  | io w₀ msecs =>
    intro hcall hcall'
    exact (beq_iff_eq.mp hcall').symm.trans (beq_iff_eq.mp hcall)
  | _ => simp [Call.waitsOn]

/-- What has to stay for a thread to stay pending. -/
lemma kept (hcall : k'.call t = x.sys.call t)
    (hrecord : k'.sched.storage t = x.sys.sched.storage t)
    (hnow : punctual → k'.sched.now = x.sys.sched.now) (hbit : k'.ioIds t = x.sys.ioIds t)
    (hqueue : x.notes.chunk t ∈ k'.waitQueue w)
    (hitem : k'.item (x.notes.chunk t) = x.sys.item (x.notes.chunk t))
    (hchunk : n'.chunk t = x.notes.chunk t) (hreturned : n'.returned t = x.notes.returned t) :
    (⟨k', n'⟩ : Noted N).Pending punctual w t where
  call := by rw [hcall]; exact h.call
  waits := h.waits.congr hrecord
  flags := by rw [hrecord]; exact h.flags
  quiet := hbit.trans h.quiet
  linked := by rw [hchunk]; exact hqueue
  item := by rw [hchunk]; exact hitem.trans h.item
  returned := hreturned.trans h.returned
  time := by
    intro hpunctual
    rw [hrecord, hnow hpunctual]
    exact h.time hpunctual

end Noted.Pending

namespace Tracked

variable {punctual : Prop} {x : Noted N} {k' : System N} {a : Action} {outcome : Outcome}

section

variable (h : Tracked punctual x)
include h

/-- An item in a queue belongs to the thread that it names. -/
lemma owner {w t b : Nat} (hb : b ∈ x.sys.waitQueue w)
    (hitem : x.sys.item b = some (.owner t)) : b = x.notes.chunk t ∧ x.Pending punctual w t := by
  obtain ⟨u, rfl, hpending⟩ := h.items w b hb
  rw [hpending.item] at hitem
  obtain rfl : u = t := WaitItem.owner.inj (Option.some.inj hitem)
  exact ⟨rfl, hpending⟩

/-- An action that is about something else. -/
lemma other (hsound : Sound False x.sys) (hpeace : Peaceful a)
    (hmay : a ≠ .threadMaySuspend) (hwait : ∀ w a' msecs, a ≠ .ioWait w a' msecs)
    (hresume : ∀ w, a ≠ .ioResume w) (htick : punctual → ∀ now, a ≠ .tick now)
    (heffect : Effect x.sys a k' outcome) : Tracked punctual ⟨k', x.notes⟩ := by
  have hsame := heffect.sameWaits hpeace hmay hwait hresume h.pollCalls
  have hcalls := fun t => heffect.call_cases (t := t) hmay
  have hnow : punctual → k'.sched.now = x.sys.sched.now := fun hpunctual =>
    heffect.now_eq hpeace hmay (htick hpunctual) h.pollCalls
  have hkept : ∀ w t, x.Pending punctual w t →
      (⟨k', x.notes⟩ : Noted N).Pending punctual w t := by
    intro w t hpending
    apply hpending.kept _ _ hnow _ _ _ rfl rfl
    · exact heffect.call_kept hmay hpending.waits.live (hsound.not_running hpending.waits)
    · exact heffect.completion_record hsound hpeace hmay hpending.waits hpending.flags
    · rw [hsame.ioIds]
    · rw [hsame.waitQueue]
      exact hpending.linked
    · rw [hsame.item]
  constructor
  · intro w b hb
    rw [hsame.waitQueue] at hb
    obtain ⟨t, heq, hpending⟩ := h.items w b hb
    exact ⟨t, heq, hkept w t hpending⟩
  · intro t w hcall
    rcases hcalls t with heq | heq | ⟨-, heq⟩
    · rw [heq] at hcall
      exact (h.calls t w hcall).imp_left (hkept w t)
    · rw [heq] at hcall
      contradiction
    · rw [heq] at hcall
      cases a <;> simp [Action.call, Call.waitsOn] at hcall
      exact absurd rfl (hwait _ _ _)
  · intro t hbit
    rw [hsame.ioIds] at hbit
    obtain ⟨hwaits, hflags, hreleased⟩ := h.bits t hbit
    have hrecord := heffect.completion_record hsound hpeace hmay hwaits hflags
    exact ⟨hwaits.congr hrecord, by rw [hrecord]; exact hflags, hreleased⟩
  · intro w
    rw [hsame.waitQueue]
    exact h.nodup w
  · intro t
    rw [hsame.pollIds]
    exact h.pollIds t
  · intro t table hcall
    rcases hcalls t with heq | heq | ⟨-, heq⟩
    · exact h.pollCalls t table (heq ▸ hcall)
    · rw [heq] at hcall
      contradiction
    · rw [heq] at hcall
      cases a <;> simp [Action.call] at hcall
      exact hpeace

/-- The running thread begins to wait with a new item. -/
lemma ioWait (hsound : Sound False x.sys) {r w b msecs : Nat}
    (hrun : x.sys.sched.running = some r) (hnew : x.sys.item b = none)
    {queues : LinkedQueues Place Nat} :
    Tracked punctual ⟨(x.sys.addItem w b (.owner r)).blocked r
      (Placed.waitingRecord x.sys.sched r .COMPLETION msecs) queues (.io w msecs),
      x.notes.after x.sys (.ioWait w b msecs)⟩ := by
  obtain ⟨k₁, hk⟩ : ∃ k₁, k₁ = (x.sys.addItem w b (.owner r)).blocked r
    (Placed.waitingRecord x.sys.sched r .COMPLETION msecs) queues (.io w msecs) := ⟨_, rfl⟩
  obtain ⟨n₁, hn⟩ : ∃ n₁, n₁ = x.notes.after x.sys (.ioWait w b msecs) := ⟨_, rfl⟩
  rw [← hk, ← hn]
  have hcall : k₁.call = update x.sys.call r (.io w msecs) := by rw [hk]; rfl
  have hstorage : k₁.sched.storage = update x.sys.sched.storage r
      (Placed.waitingRecord x.sys.sched r .COMPLETION msecs) := by rw [hk]; rfl
  have hnow : k₁.sched.now = x.sys.sched.now := by rw [hk]; rfl
  have hbits : k₁.ioIds = x.sys.ioIds := by rw [hk]; rfl
  have hitem : k₁.item = update x.sys.item b (some (.owner r)) := by rw [hk]; rfl
  have hqueue : ∀ w', k₁.waitQueue w' =
      if w' = w then x.sys.waitQueue w ++ [b] else x.sys.waitQueue w' := by
    intro w'
    rw [hk]
    exact update_apply ..
  simp only [IoNotes.after, hsound.runningTid hrun] at hn
  have hchunk : n₁.chunk = update x.notes.chunk r b := by rw [hn]
  have hreturned : n₁.returned = update x.notes.returned r 0 := by rw [hn]
  have hlive := hsound.live hrun
  have hother : ∀ {w' t}, x.Pending punctual w' t → t ≠ r := by
    rintro w' t hpending rfl
    exact hsound.not_running hpending.waits hrun
  have hunlinked : ∀ w', b ∉ x.sys.waitQueue w' := by
    intro w' hb
    obtain ⟨t, heq, hpending⟩ := h.items w' b hb
    rw [heq, hpending.item] at hnew
    contradiction
  have hbit : x.sys.ioIds r = false := by
    rw [Bool.eq_false_iff]
    exact fun hbit => hsound.not_running (h.bits r hbit).1 hrun
  have hreleased : ∀ t, t ≠ r → x.notes.Released t → n₁.Released t := by
    rintro t ht ⟨hreturned', hresumed⟩
    constructor
    · rw [hreturned, update_of_ne ht]
      exact hreturned'
    · rw [hn]
      exact (update_of_ne ht _ _).trans hresumed
  -- those who waited before go on waiting
  have hkept : ∀ w' t, x.Pending punctual w' t →
      (⟨k₁, n₁⟩ : Noted N).Pending punctual w' t := by
    intro w' t hpending
    have ht := hother hpending
    apply hpending.kept
    · rw [hcall, update_of_ne ht]
    · rw [hstorage, update_of_ne ht]
    · exact fun _ => hnow
    · rw [hbits]
    · rw [hqueue]
      split
      · next heq =>
          subst heq
          exact List.mem_append_left _ hpending.linked
      · exact hpending.linked
    · rw [hitem, update_of_ne]
      intro heq
      exact hunlinked w' (heq ▸ hpending.linked)
    · rw [hchunk, update_of_ne ht]
    · rw [hreturned, update_of_ne ht]
  have hpending : (⟨k₁, n₁⟩ : Noted N).Pending punctual w r := by
    have hrecord : k₁.sched.storage r =
        Placed.waitingRecord x.sys.sched r .COMPLETION msecs := by
      rw [hstorage, update_self]
    constructor
    · dsimp only
      rw [hcall, update_self]
      exact beq_self_eq_true w
    · refine ⟨⟨hlive.1, hlive.2.1, ?_⟩, ?_, ?_⟩
      · rw [hrecord]
        exact hlive.tid_eq
      · rw [hrecord]
        rfl
      · rw [hrecord]
        exact (hsound.runner r hrun).2
    · rw [hrecord]
      rfl
    · dsimp only
      rw [hbits, hbit]
    · dsimp only
      rw [hchunk, update_self, hqueue, if_pos rfl]
      exact List.mem_append_right _ (List.mem_singleton_self b)
    · dsimp only
      rw [hchunk, update_self, hitem, update_self]
    · dsimp only
      rw [hreturned, update_self]
    · intro _ htimeout
      rw [hrecord] at htimeout ⊢
      have hmsecs : msecs ≠ 0 := by simpa [Placed.waitingRecord] using htimeout
      change k₁.sched.now < if msecs ≠ 0 then x.sys.sched.now + msecs else 0
      rw [hnow, if_pos hmsecs]
      exact Nat.lt_add_of_pos_right (Nat.pos_of_ne_zero hmsecs)
  constructor
  · intro w' c hc
    have hcases : c ∈ x.sys.waitQueue w' ∨ w' = w ∧ c = b := by
      rw [hqueue] at hc
      split at hc
      · next heq =>
          subst heq
          simpa using hc
      · exact .inl hc
    rcases hcases with hc | ⟨rfl, rfl⟩
    · obtain ⟨t, heq, hwaits⟩ := h.items w' c hc
      refine ⟨t, ?_, hkept w' t hwaits⟩
      rw [hchunk, update_of_ne (hother hwaits), heq]
    · refine ⟨r, ?_, hpending⟩
      rw [hchunk, update_self]
  · intro t w' hcalls
    rw [hcall] at hcalls
    by_cases ht : t = r
    · subst ht
      rw [update_self] at hcalls
      obtain rfl : w = w' := beq_iff_eq.mp hcalls
      exact .inl hpending
    · rw [update_of_ne ht] at hcalls
      exact (h.calls t w' hcalls).imp (hkept w' t) (hreleased t ht)
  · intro t hids
    rw [hbits] at hids
    have ht : t ≠ r := by
      rintro rfl
      exact Bool.false_ne_true (hbit.symm.trans hids)
    obtain ⟨hwaits, hflags, hback⟩ := h.bits t hids
    have hsame : k₁.sched.storage t = x.sys.sched.storage t := by
      rw [hstorage, update_of_ne ht]
    exact ⟨hwaits.congr hsame, by rw [hsame]; exact hflags, hreleased t ht hback⟩
  · intro w'
    rw [hqueue]
    split
    · apply List.nodup_append.mpr
      refine ⟨h.nodup w, List.nodup_singleton b, ?_⟩
      intro c hc c' hc'
      rw [List.mem_singleton.mp hc']
      rintro rfl
      exact hunlinked w hc
    · exact h.nodup w'
  · rw [hk]
    exact h.pollIds
  · intro t table
    rw [hcall]
    by_cases ht : t = r
    · subst ht
      rw [update_self]
      simp
    · rw [update_of_ne ht]
      exact h.pollCalls t table

/-- A resume takes all items out of a queue and marks their threads. -/
lemma resumed_eq (w : Nat) :
    System.resumeItems w (x.sys.waitQueue w) x.sys = some { x.sys with
      item := fun a => if a ∈ x.sys.waitQueue w then none else x.sys.item a
      waitQueue := update x.sys.waitQueue w []
      ioIds := fun t => x.sys.ioIds t ||
        decide (∃ a ∈ x.sys.waitQueue w, x.sys.item a = some (.owner t)) } := by
  apply System.resumeItems_owners _ rfl (h.nodup w)
  intro a ha
  obtain ⟨t, rfl, hpending⟩ := h.items w a ha
  exact ⟨t, hpending.item⟩

/-- How often a resume gives back the item of a pending thread. -/
lemma count_eq {w' t : Nat} (hpending : x.Pending punctual w' t)
    (w : Nat) : (x.sys.waitQueue w).countP (fun a =>
      decide (a = x.notes.chunk t ∧ x.sys.item a = some (.owner t))) =
    if w' = w then 1 else 0 := by
  have hsame : (x.sys.waitQueue w).countP (fun a =>
      decide (a = x.notes.chunk t ∧ x.sys.item a = some (.owner t))) =
      (x.sys.waitQueue w).count (x.notes.chunk t) := by
    apply List.countP_congr
    intro a _
    simp only [decide_eq_true_eq, beq_iff_eq, and_iff_left_iff_imp]
    rintro rfl
    exact hpending.item
  rw [hsame, (h.nodup w).count]
  have hiff : x.notes.chunk t ∈ x.sys.waitQueue w ↔ w' = w := by
    constructor
    · intro hmem
      obtain ⟨-, hpending'⟩ := h.owner hmem hpending.item
      exact hpending.queue_eq hpending'.call
    · rintro rfl
      exact hpending.linked
  simp only [hiff]

/-- The item of a released thread is not given back again. -/
lemma count_released {t : Nat} (hreleased : x.notes.Released t)
    (w : Nat) : (x.sys.waitQueue w).countP (fun a =>
      decide (a = x.notes.chunk t ∧ x.sys.item a = some (.owner t))) = 0 := by
  apply List.countP_eq_zero.mpr
  intro a ha hmine
  obtain ⟨-, hpending⟩ := h.owner ha (of_decide_eq_true hmine).2
  have hzero := hpending.returned
  rw [hreleased.returned] at hzero
  contradiction

lemma ioResume {w : Nat}
    (heq : System.resumeItems w (x.sys.waitQueue w) x.sys = some k') :
    Tracked punctual ⟨k', x.notes.after x.sys (.ioResume w)⟩ := by
  rw [h.resumed_eq w] at heq
  obtain ⟨n₁, hn⟩ : ∃ n₁, n₁ = x.notes.after x.sys (.ioResume w) := ⟨_, rfl⟩
  rw [← hn]
  have hk := (Option.some.inj heq).symm
  have hcall : k'.call = x.sys.call := by rw [hk]
  have hsched : k'.sched = x.sys.sched := by rw [hk]
  have hitem : ∀ a, k'.item a = if a ∈ x.sys.waitQueue w then none else x.sys.item a := by
    intro a
    rw [hk]
  have hqueue : ∀ w', k'.waitQueue w' = if w' = w then [] else x.sys.waitQueue w' := by
    intro w'
    rw [hk]
    exact update_apply ..
  have hbits : ∀ t, k'.ioIds t = true ↔
      x.sys.ioIds t = true ∨ ∃ a ∈ x.sys.waitQueue w, x.sys.item a = some (.owner t) := by
    intro t
    rw [hk]
    simp
  have hchunk : n₁.chunk = x.notes.chunk := by rw [hn]; rfl
  have hreturned : ∀ t, n₁.returned t = x.notes.returned t +
      (x.sys.waitQueue w).countP fun a =>
        decide (a = x.notes.chunk t ∧ x.sys.item a = some (.owner t)) := by
    intro t
    rw [hn]
    rfl
  have hresumed : ∀ t, n₁.resumed t = (x.notes.resumed t || (x.sys.call t).waitsOn w) := by
    intro t
    rw [hn]
    rfl
  have hstill : ∀ t, x.notes.Released t → n₁.Released t := by
    intro t hreleased
    constructor
    · rw [hreturned, h.count_released hreleased, hreleased.returned]
    · rw [hresumed, hreleased.resumed, Bool.true_or]
  have hfreed : ∀ t, x.Pending punctual w t → n₁.Released t := by
    intro t hpending
    constructor
    · rw [hreturned, h.count_eq hpending, if_pos rfl, hpending.returned]
    · rw [hresumed, hpending.call, Bool.or_true]
  have hkept : ∀ w' t, w' ≠ w → x.Pending punctual w' t →
      (⟨k', n₁⟩ : Noted N).Pending punctual w' t := by
    intro w' t hne hpending
    have hunlinked : x.notes.chunk t ∉ x.sys.waitQueue w := by
      intro hmem
      obtain ⟨-, hpending'⟩ := h.owner hmem hpending.item
      exact hne (hpending.queue_eq hpending'.call)
    apply hpending.kept
    · rw [hcall]
    · rw [hsched]
    · exact fun _ => by rw [hsched]
    · rw [hpending.quiet, Bool.eq_false_iff]
      intro hbit
      rcases (hbits t).mp hbit with hbit | ⟨a, ha, hmine⟩
      · exact Bool.false_ne_true (hpending.quiet.symm.trans hbit)
      · obtain ⟨-, hpending'⟩ := h.owner ha hmine
        exact hne (hpending.queue_eq hpending'.call)
    · rw [hqueue, if_neg hne]
      exact hpending.linked
    · rw [hitem, if_neg hunlinked]
    · rw [hchunk]
    · rw [hreturned, h.count_eq hpending, if_neg hne, Nat.add_zero]
  constructor
  · intro w' a ha
    rw [hqueue] at ha
    split at ha
    · contradiction
    · next hne =>
        obtain ⟨t, heq', hpending⟩ := h.items w' a ha
        refine ⟨t, ?_, hkept w' t hne hpending⟩
        rw [hchunk, heq']
  · intro t w' hcalls
    rw [hcall] at hcalls
    rcases h.calls t w' hcalls with hpending | hreleased
    · by_cases hw : w' = w
      · subst hw
        exact .inr (hfreed t hpending)
      · exact .inl (hkept w' t hw hpending)
    · exact .inr (hstill t hreleased)
  · intro t hbit
    rw [hsched]
    rcases (hbits t).mp hbit with hbit | ⟨a, ha, hmine⟩
    · obtain ⟨hwaits, hflags, hreleased⟩ := h.bits t hbit
      exact ⟨hwaits, hflags, hstill t hreleased⟩
    · obtain ⟨-, hpending⟩ := h.owner ha hmine
      exact ⟨hpending.waits, hpending.flags, hfreed t hpending⟩
  · intro w'
    rw [hqueue]
    split
    · exact List.nodup_nil
    · exact h.nodup w'
  · rw [hk]
    exact h.pollIds
  · dsimp only
    rw [hcall]
    exact h.pollCalls

lemma change {punctual' : Prop}
    (htime : ∀ w t, x.Pending punctual w t → punctual' →
      (x.sys.sched.storage t).wait.timeout = true →
      x.sys.sched.now < (x.sys.sched.storage t).delay) : Tracked punctual' x := by
  have hpending : ∀ w t, x.Pending punctual w t → x.Pending punctual' w t := by
    intro w t hwaits
    exact ⟨hwaits.call, hwaits.waits, hwaits.flags, hwaits.quiet, hwaits.linked, hwaits.item,
      hwaits.returned, htime w t hwaits⟩
  refine ⟨fun w a ha => ?_, fun t w hcall => ?_, h.bits, h.nodup, h.pollIds, h.pollCalls⟩
  · obtain ⟨t, heq, hwaits⟩ := h.items w a ha
    exact ⟨t, heq, hpending w t hwaits⟩
  · exact (h.calls t w hcall).imp_left (hpending w t)

end

lemma relaxed (h : Tracked True x) : Tracked False x :=
  h.change fun _ _ _ hpunctual => absurd hpunctual id

/-- Who is in time is punctual. -/
lemma punctually (h : Tracked False x) (htime : x.sys.InTime) : Tracked True x := by
  apply h.change
  intro w t hwaits _ htimeout
  rcases htime t hwaits.waits.live.lt hwaits.live_call hwaits.waits.state htimeout with
    hbit | hlt
  · exact absurd (hwaits.quiet.symm.trans hbit) Bool.false_ne_true
  · exact hlt

/-- An update leaves those alone who wait and are punctual. -/
lemma settle (h : Tracked True x) (hsettled : System.Settled x.sys k') :
    Tracked True ⟨k', x.notes⟩ := by
  have htables := hsettled.tables
  obtain ⟨s, hk, hsettles⟩ := hsettled
  obtain ⟨T, bar, hall, -⟩ := x.sys.resumeAll_eq
  have hnow : k'.sched.now = x.sys.sched.now := by
    rw [hk]
    exact hsettles.now.trans x.sys.resumeAll_awakens.now
  have hbits : ∀ t, k'.ioIds t = (x.sys.ioIds t && !decide (t < N)) := by
    intro t
    rw [hk, hall]
  have hpolls : ∀ t, k'.pollIds t = false := by
    intro t
    rw [hk, hall]
    simp [h.pollIds t]
  have hkept : ∀ w t, x.Pending True w t → (⟨k', x.notes⟩ : Noted N).Pending True w t := by
    intro w t hpending
    have hdue : ¬x.sys.Due t := by
      rintro (⟨hflag, -⟩ | ⟨hflag, -⟩ | ⟨-, hid | hid⟩)
      · exact Bool.false_ne_true ((congrArg WaitFlags.event hpending.flags).symm.trans hflag)
      · exact Bool.false_ne_true ((congrArg WaitFlags.barrier hpending.flags).symm.trans hflag)
      · exact Bool.false_ne_true (hpending.quiet.symm.trans hid)
      · exact Bool.false_ne_true ((h.pollIds t).symm.trans hid)
    have hrecord : k'.sched.storage t = x.sys.sched.storage t := by
      have hsame := System.resumeAll_record_of_not hdue
      rw [hk]
      refine (hsettles.kept t ?_ ?_ ?_ ?_).trans hsame
      · exact x.sys.resumeAll_awakens.live.mpr hpending.waits.live
      · rw [hsame]
        exact hpending.waits.state
      · rw [hsame]
        exact hpending.waits.terminate
      · rw [hsame, x.sys.resumeAll_awakens.now]
        exact hpending.time trivial
    apply hpending.kept
    · rw [htables.call]
    · exact hrecord
    · exact fun _ => hnow
    · rw [hbits, hpending.quiet, Bool.false_and]
    · rw [htables.waitQueue]
      exact hpending.linked
    · rw [htables.item]
    · rfl
    · rfl
  constructor
  · intro w a ha
    rw [htables.waitQueue] at ha
    obtain ⟨t, heq, hpending⟩ := h.items w a ha
    exact ⟨t, heq, hkept w t hpending⟩
  · intro t w hcall
    rw [htables.call] at hcall
    exact (h.calls t w hcall).imp_left (hkept w t)
  · intro t hbit
    rw [hbits, Bool.and_eq_true_iff] at hbit
    have hlt := (h.bits t hbit.1).1.live.lt
    simp [hlt] at hbit
  · intro w
    rw [htables.waitQueue]
    exact h.nodup w
  · exact hpolls
  · dsimp only
    rw [htables.call]
    exact h.pollCalls

/-- What an action other than `thread_may_suspend` does up to `schedule_thread`. -/
lemma act (h : Tracked punctual x) (hsound : Sound False x.sys) (hallowed : x.sys.Allowed a)
    (hpeace : Peaceful a) (hmay : a ≠ .threadMaySuspend)
    (htick : punctual → ∀ now, a ≠ .tick now) (hact : x.sys.act a = some (k', outcome)) :
    Tracked punctual ⟨k', x.notes.after x.sys a⟩ := by
  have heffect := hsound.effect hallowed hact
  by_cases hwait : ∃ w b msecs, a = .ioWait w b msecs
  · obtain ⟨w, b, msecs, rfl⟩ := hwait
    obtain ⟨⟨r, hrun, hr, -⟩, hnew⟩ := hallowed
    change x.sys.threadIoWait w b msecs = _ at hact
    unfold System.threadIoWait at hact
    rw [hsound.runningTid hrun] at hact
    obtain ⟨⟨k₁, ok⟩, hwaits, hres⟩ := Option.map_eq_some_iff.mp hact
    have hflags : WaitFlags.COMPLETION.events ≠ .none := by decide
    obtain ⟨rfl, -, queues, rfl⟩ := hsound.wait_effect hrun hr hflags hwaits rfl
    cases hres
    exact h.ioWait hsound hrun hnew
  · by_cases hresume : ∃ w, a = .ioResume w
    · obtain ⟨w, rfl⟩ := hresume
      obtain ⟨k₁, heq, hres⟩ := Option.map_eq_some_iff.mp hact
      cases hres
      exact h.ioResume heq
    · have hnotes : x.notes.after x.sys a = x.notes := by
        cases a with
        | ioWait w b msecs => exact absurd ⟨w, b, msecs, rfl⟩ hwait
        | ioResume w => exact absurd ⟨w, rfl⟩ hresume
        | _ => rfl
      rw [hnotes]
      apply h.other hsound hpeace hmay _ _ htick heffect
      · exact fun w b msecs heq => hwait ⟨w, b, msecs, heq⟩
      · exact fun w heq => hresume ⟨w, heq⟩

lemma exec (h : Tracked False x) (hsound : Sound False x.sys) (hallowed : x.sys.Allowed a)
    (htimely : Timely x.sys a) {x' : Noted N} (hexec : x.exec a = some x') :
    Tracked False x' := by
  obtain ⟨k₂, hsys, rfl⟩ := Option.map_eq_some_iff.mp hexec
  obtain ⟨⟨k₁, outcome⟩, hact, hrest⟩ := Option.bind_eq_some_iff.mp hsys
  have hspares : Spares False x.sys a := by
    cases a with
    | threadKill tid => exact absurd htimely.1 id
    | _ => trivial
  have hacted := (hsound.act hallowed hspares hact).placed
  dsimp only at hrest
  by_cases hmay : a = .threadMaySuspend
  · subst hmay
    have hpunctual := h.punctually (htimely.2 (.inl rfl))
    obtain ⟨L, hplaced⟩ := hsound.placed
    have heffect := hsound.effect hallowed hact
    cases heffect with
    | unchanged hout =>
      rw [if_neg hout] at hrest
      cases hrest
      exact h
    | stayed hupdate =>
      rw [if_neg (by simp)] at hrest
      cases hrest
      exact (hpunctual.settle (System.updateSchedule_settled hplaced hupdate)).relaxed
    | @gaveWay k₃ r queues hupdate hrun =>
      rw [if_pos rfl] at hrest hacted
      obtain ⟨L', hplaced'⟩ := hacted
      have hmiddle := hpunctual.settle (System.updateSchedule_settled hplaced hupdate)
      obtain ⟨-, hsound₁, -⟩ := hsound.updateSchedule hupdate
      have hend := hmiddle.other hsound₁ (a := .threadSuspend) trivial (by simp) (by simp)
        (by simp) (by simp) (@Effect.suspended _ _ _ queues hrun)
      exact (hend.settle (System.scheduleThread_settled hplaced' hrest)).relaxed
  · by_cases hout : outcome = .schedules
    · rw [if_pos hout] at hrest hacted
      have hpunctual := h.punctually (htimely.2 (.inr ⟨_, hact, hout⟩))
      have htick : True → ∀ now, a ≠ .tick now := by
        rintro - now rfl
        cases hact
        contradiction
      have hend := hpunctual.act hsound hallowed htimely.1 hmay htick hact
      obtain ⟨L, hplaced⟩ := hacted
      exact (hend.settle (System.scheduleThread_settled hplaced hrest)).relaxed
    · rw [if_neg hout] at hrest
      cases hrest
      exact h.act hsound hallowed htimely.1 hmay (fun hfalse => absurd hfalse id) hact

lemma start {k : System N} (hboot : boot N = some k) : Tracked False (Noted.start k) := by
  obtain ⟨s₀, -, hrest⟩ := Option.bind_eq_some_iff.mp hboot
  obtain ⟨s₂, -, rfl⟩ := Option.map_eq_some_iff.mp hrest
  constructor <;> simp [Noted.start, Call.waitsOn]

/-- What the invariant says about the calls. -/
lemma nothingLeft (h : Tracked False x) (hsound : Sound False x.sys) : NothingLeft x := by
  have hunlinked : ∀ r, x.sys.sched.running = some r → ∀ w, ∀ a ∈ x.sys.waitQueue w,
      x.sys.item a ≠ some (.owner r) := by
    intro r hrun w a ha hmine
    exact hsound.not_running (h.owner ha hmine).2.waits hrun
  constructor
  · intro t hcall w a ha hmine
    rw [(h.owner ha hmine).2.live_call] at hcall
    contradiction
  · intro r w msecs again k outcome hrun hcall hact
    have hreleased : x.notes.Released r := by
      have hwaits : (x.sys.call r).waitsOn w = true := by
        rw [hcall]
        exact beq_self_eq_true w
      refine (h.calls r w hwaits).resolve_left fun hpending => ?_
      exact hsound.not_running hpending.waits hrun
    have hnone : x.sys.findItem w r = none := by
      apply List.find?_eq_none.mpr
      intro a ha
      obtain ⟨t, rfl, hpending⟩ := h.items w a ha
      rw [hpending.item]
      simp only [Option.map_some, WaitItem.tid, Option.some.injEq, decide_eq_true_eq]
      rintro rfl
      exact hsound.not_running hpending.waits hrun
    change x.sys.finish again = _ at hact
    unfold System.finish at hact
    rw [hrun] at hact
    dsimp only at hact
    rw [hcall] at hact
    dsimp only at hact
    rw [hsound.runningTid hrun, hnone] at hact
    cases hact
    refine ⟨hunlinked r hrun, hreleased.returned, fun _ => iff_of_true ?_ hreleased.resumed⟩
    simp
  · intro w
    refine ⟨_, congrArg (Option.map _) (h.resumed_eq w), ?_⟩
    intro t hbit
    rcases (Bool.or_eq_true_iff.mp hbit) with hbit | hbit
    · exact (h.bits t hbit).1.state
    · obtain ⟨a, ha, hmine⟩ := of_decide_eq_true hbit
      exact (h.owner ha hmine).2.waits.state

end Tracked

/-! ## I/O waits -/

/-- If no I/O wait runs into its time-out, in every state that is reached no wait call has left
an item behind, every item comes back once, the calls tell the truth, and a resume marks only
threads that wait. -/
theorem io_waits_leave_nothing {k₀ : System N} (hboot : boot N = some k₀) {x : Noted N}
    (hrun : PartialRuns Noted.exec (fun x a => x.sys.Allowed a ∧ Timely x.sys a)
      (Noted.start k₀) x) : NothingLeft x := by
  have hkept : Sound False x.sys ∧ Tracked False x := by
    apply hrun.invariant (P := fun x => Sound False x.sys ∧ Tracked False x)
    · rintro x a x' ⟨hsound, htracked⟩ ⟨hallowed, htimely⟩ hexec
      refine ⟨?_, htracked.exec hsound hallowed htimely hexec⟩
      obtain ⟨k, hsys, rfl⟩ := Option.map_eq_some_iff.mp hexec
      apply hsound.exec hallowed _ hsys
      cases a with
      | threadKill tid => exact absurd htimely.1 id
      | _ => trivial
    · exact ⟨(Sound.start hboot).1, Tracked.start hboot⟩
  exact hkept.2.nothingLeft hkept.1

/-- Thread 2 waits for a queue with a time-out. -/
def waitsForIo : List Action := twoThreads ++ [.ioWaitInit 8, .ioWait 8 100 5]

theorem io_waits_leave_nothing_resumed : ∃ (k₀ : System 4) (x : Noted 4), boot 4 = some k₀ ∧
    PartialRuns Noted.exec (fun x a => x.sys.Allowed a ∧ Timely x.sys a) (Noted.start k₀) x ∧
    x.sys.sched.running = some 2 ∧ x.sys.call 2 = .io 8 5 ∧ NothingLeft x := by
  obtain ⟨k₀, x, hboot, hrun, hrunning, hcall⟩ := exists_observed (N := 4)
    Noted.exec Noted.start (fun x a => x.sys.Allowed a ∧ Timely x.sys a)
    (waitsForIo ++ [.ioResume 8, .threadSuspend, .threadSuspend])
    (P := fun x => x.sys.sched.running = some 2 ∧ x.sys.call 2 = .io 8 5) (by decide)
  exact ⟨k₀, x, hboot, hrun, hrunning, hcall, io_waits_leave_nothing hboot hrun⟩

/-- A wait that ran into its time-out has returned, its item is still in the queue, and a resume
marks the thread although it runs. -/
theorem io_wait_left_behind : ∃ (k₀ : System 4) (x : Noted 4), boot 4 = some k₀ ∧
    PartialRuns Noted.exec (fun x a => x.sys.Allowed a ∧ Peaceful a) (Noted.start k₀) x ∧
    x.sys.call 2 = .none ∧ 100 ∈ x.sys.waitQueue 8 ∧ x.sys.item 100 = some (.owner 2) ∧
    (∃ p ∈ x.sys.act (.ioResume 8),
      p.1.ioIds 2 = true ∧ (p.1.sched.storage 2).state = .running) ∧ ¬NothingLeft x := by
  obtain ⟨k₀, x, hboot, hrun, hcall, hlinked, hitem, hmarked⟩ := exists_observed (N := 4)
    Noted.exec Noted.start (fun x a => x.sys.Allowed a ∧ Peaceful a)
    (waitsForIo ++ [.tick 9, .threadSuspend, .threadSuspend, .finish []])
    (P := fun x => x.sys.call 2 = .none ∧ 100 ∈ x.sys.waitQueue 8 ∧
      x.sys.item 100 = some (.owner 2) ∧ ∃ p ∈ x.sys.act (.ioResume 8),
        p.1.ioIds 2 = true ∧ (p.1.sched.storage 2).state = .running) (by decide)
  refine ⟨k₀, x, hboot, hrun, hcall, hlinked, hitem, hmarked, fun h => ?_⟩
  exact h.left 2 (by rw [hcall]; rfl) 8 100 hlinked hitem

end DiegOS.Kernel
