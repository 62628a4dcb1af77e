import DiegOS.Kernel.Places

/-!
# What is left alone

Frames of the effects and of the scheduler, and the rule for the invariants of runs.

Main results:

- Lemma `System.resumeAll_record_of`: whom the first half of an update resumes.
- Theorem `Effect.waiting_record`: whom an action resumes before the scheduler is
  called.
- Theorem `Keeps.runs`: a property that effects and updates keep holds in every state
  that is reached.
-/

namespace DiegOS.Kernel

open Lib Function

variable {N : Nat}

/-! ## The scheduler -/

lemma WaitFlags.inter_mutex {f : WaitFlags} :
    WaitFlags.MUTEX.inter f ≠ .none ↔ f.mutex = true := by
  simp [inter, MUTEX, none]

lemma WaitFlags.inter_event {f : WaitFlags} :
    WaitFlags.EVENT.inter f ≠ .none ↔ f.event = true := by
  simp [inter, EVENT, none]

lemma WaitFlags.inter_barrier {f : WaitFlags} :
    WaitFlags.BARRIER.inter f ≠ .none ↔ f.barrier = true := by
  simp [inter, BARRIER, none]

lemma WaitFlags.inter_completion {f : WaitFlags} :
    WaitFlags.COMPLETION.inter f ≠ .none ↔ f.completion = true := by
  simp [inter, COMPLETION, none]

/-- The thread waits and was not told to end. -/
structure Sched.Waits (s : Sched N) (t : Nat) : Prop where
  live : s.Live t
  state : (s.storage t).state = .waiting
  terminate : (s.storage t).terminate = false

namespace Sched

variable {s s' : Sched N} {t : Nat}

instance (s : Sched N) (t : Nat) : Decidable (s.Waits t) :=
  decidable_of_iff (s.Live t ∧ (s.storage t).state = .waiting ∧ (s.storage t).terminate = false)
    ⟨fun h => ⟨h.1, h.2.1, h.2.2⟩, fun h => ⟨h.1, h.2, h.3⟩⟩

lemma Waits.congr (h : s.Waits t) (heq : s'.storage t = s.storage t) : s'.Waits t := by
  obtain ⟨hlive, hstate, hterm⟩ := h
  refine ⟨?_, ?_, ?_⟩
  · unfold Sched.Live
    rwa [heq]
  · rwa [heq]
  · rwa [heq]

end Sched

namespace System

/-- The next update resumes the thread because of what it waits for. -/
def Due (k : System N) (t : Nat) : Prop :=
  (k.sched.storage t).wait.event = true ∧ k.eventDue k.evQueues t = true ∨
  (k.sched.storage t).wait.barrier = true ∧
    (∃ b ∈ k.barriers, (k.barrier b).isOpen = true ∧ (k.barrier b).ids t = true) ∨
  (k.sched.storage t).wait.completion = true ∧ (k.ioIds t = true ∨ k.pollIds t = true)

/-- An update has left a thread that is not due as it was. -/
lemma resumeAll_record_of_not {k : System N} {t : Nat} (h : ¬k.Due t) :
    k.resumeAll.sched.storage t = k.sched.storage t := by
  obtain ⟨T, bar, heq, -, hT⟩ := k.resumeAll_eq
  rw [heq]
  have hevent : (k.sched.wakeAll .EVENT (k.eventDue k.evQueues)).storage t =
      k.sched.storage t := by
    apply Sched.wakeAll_storage_of_not
    rintro ⟨hdue, -, -, hflags⟩
    exact h (.inl ⟨WaitFlags.inter_event.mp hflags, hdue⟩)
  have hbarrier : ((k.sched.wakeAll .EVENT (k.eventDue k.evQueues)).wakeAll .BARRIER T).storage t =
      k.sched.storage t := by
    rw [Sched.wakeAll_storage_of_not, hevent]
    rintro ⟨hset, -, -, hflags⟩
    rw [hevent] at hflags
    exact h (.inr (.inl ⟨WaitFlags.inter_barrier.mp hflags, ((hT t).mp hset).2⟩))
  have hio : (((k.sched.wakeAll .EVENT (k.eventDue k.evQueues)).wakeAll .BARRIER T).wakeAll
      .COMPLETION (below N k.ioIds)).storage t = k.sched.storage t := by
    rw [Sched.wakeAll_storage_of_not, hbarrier]
    rintro ⟨hset, -, -, hflags⟩
    rw [hbarrier] at hflags
    have hid : k.ioIds t = true := (Bool.and_eq_true_iff.mp hset).1
    exact h (.inr (.inr ⟨WaitFlags.inter_completion.mp hflags, .inl hid⟩))
  rw [Sched.wakeAll_storage_of_not, hio]
  rintro ⟨hset, -, -, hflags⟩
  rw [hio] at hflags
  have hid : k.pollIds t = true := (Bool.and_eq_true_iff.mp hset).1
  exact h (.inr (.inr ⟨WaitFlags.inter_completion.mp hflags, .inr hid⟩))

end System

/-- A thread that still waits was not among the resumed ones. -/
lemma Sched.wakeAll_spares {s : Sched N} {flags : WaitFlags} {T : Nat → Bool} {t : Nat}
    (h : ((s.wakeAll flags T).storage t).state = .waiting) :
    ¬(T t = true ∧ s.Resumable flags t) := by
  rintro ⟨hT, hres⟩
  rw [Sched.wakeAll_storage_of hT hres] at h
  contradiction

namespace System

/-- An update resumes a waiting thread that is due. -/
lemma resumeAll_record_of {k : System N} {t : Nat} (h : k.Due t) (hlive : k.sched.Live t)
    (hstate : (k.sched.storage t).state = .waiting) :
    k.resumeAll.sched.storage t = (k.sched.storage t).resumed := by
  rcases k.resumeAll_awakens.records t with hsame | ⟨-, -, -, heq⟩
  · exfalso
    obtain ⟨T, bar, heq, -, hT⟩ := k.resumeAll_eq
    rw [heq] at hsame
    have hpoll := hsame ▸ hstate
    have hio := Sched.wakeAll_waiting hpoll ▸ hpoll
    have hbarrier := Sched.wakeAll_waiting hio ▸ hio
    have hevent := Sched.wakeAll_waiting hbarrier ▸ hbarrier
    have hlt : t < N := hlive.lt
    have hresumable : ∀ {s : Sched N} {flags : WaitFlags}, s.storage t = k.sched.storage t →
        flags.inter (k.sched.storage t).wait ≠ .none → s.Resumable flags t := by
      intro s flags hs hflags
      unfold Sched.Resumable Sched.Live
      rw [hs]
      exact ⟨hlive, hstate, hflags⟩
    rcases h with ⟨hflag, hdue⟩ | ⟨hflag, hopen⟩ | ⟨hflag, hids⟩
    · exact Sched.wakeAll_spares hevent
        ⟨hdue, hresumable rfl (WaitFlags.inter_event.mpr hflag)⟩
    · refine Sched.wakeAll_spares hbarrier ⟨(hT t).mpr ⟨hlt, hopen⟩, ?_⟩
      exact hresumable (Sched.wakeAll_waiting hevent) (WaitFlags.inter_barrier.mpr hflag)
    · have hinter := WaitFlags.inter_completion.mpr hflag
      have hbelow : ∀ ids : Nat → Bool, ids t = true → below N ids t = true := by
        intro ids hid
        simp [below, hid, hlt]
      have hthird := (Sched.wakeAll_waiting hbarrier).trans (Sched.wakeAll_waiting hevent)
      rcases hids with hid | hid
      · exact Sched.wakeAll_spares hio ⟨hbelow _ hid, hresumable hthird hinter⟩
      · exact Sched.wakeAll_spares hpoll
          ⟨hbelow _ hid, hresumable ((Sched.wakeAll_waiting hio).trans hthird) hinter⟩
  · exact heq

/-- The tables that an update does not change. -/
structure SameTables (k k' : System N) : Prop where
  mutexes : k'.mutexes = k.mutexes
  mutex : k'.mutex = k.mutex
  evQueues : k'.evQueues = k.evQueues
  evQueue : k'.evQueue = k.evQueue
  barriers : k'.barriers = k.barriers
  waitQueues : k'.waitQueues = k.waitQueues
  waitQueue : k'.waitQueue = k.waitQueue
  item : k'.item = k.item
  pollTables : k'.pollTables = k.pollTables
  pollTable : k'.pollTable = k.pollTable
  call : k'.call = k.call

lemma sameTables_resumeAll (k : System N) : SameTables k k.resumeAll := by
  obtain ⟨T, bar, heq, -⟩ := k.resumeAll_eq
  rw [heq]
  constructor <;> rfl

lemma SameTables.setSched {k k' : System N} (h : SameTables k k') (s : Sched N) :
    SameTables k (k'.setSched s) :=
  ⟨h.mutexes, h.mutex, h.evQueues, h.evQueue, h.barriers, h.waitQueues, h.waitQueue, h.item,
    h.pollTables, h.pollTable, h.call⟩

lemma sameTables_updateSchedule {k k' : System N} (h : k.updateSchedule = some k') :
    SameTables k k' := by
  obtain ⟨s, -, rfl⟩ := Option.map_eq_some_iff.mp h
  exact (sameTables_resumeAll k).setSched s

/-- `update_schedule` or `schedule_thread` has been called. -/
def Settled (k k' : System N) : Prop :=
  ∃ s, k' = k.resumeAll.setSched s ∧ Settles k.resumeAll.sched s

variable {strict : Prop} {k k' : System N} {t : Nat}

lemma updateSchedule_settled {out : List Nat} {L : Place → List Nat}
    (h : Placed strict k.sched out L) (heq : k.updateSchedule = some k') : Settled k k' := by
  obtain ⟨s, L', heq', -, -, hsettles, -⟩ := updateSchedule_spec h
  rw [heq'] at heq
  cases heq
  exact ⟨s, rfl, hsettles⟩

lemma scheduleThread_settled {L : Place → List Nat} (h : Placed strict k.sched [] L)
    (heq : k.scheduleThread = some k') : Settled k k' := by
  obtain ⟨s, r, L', heq', -, hsettles, -⟩ := scheduleThread_spec h
  rw [heq'] at heq
  cases heq
  exact ⟨s, rfl, hsettles⟩

namespace Settled

lemma tables (h : Settled k k') : SameTables k k' := by
  obtain ⟨s, rfl, -⟩ := h
  exact (sameTables_resumeAll k).setSched s

/-- Those who wait have waited and were not due. -/
lemma waiting (h : Settled k k') (hstate : (k'.sched.storage t).state = .waiting) :
    k'.sched.storage t = k.sched.storage t := by
  obtain ⟨s, rfl, hsettles⟩ := h
  have hsame := hsettles.waiting t hstate
  rw [hsame] at hstate
  exact hsame.trans (k.resumeAll_awakens.waiting hstate)

/-- Those who wait without a time-out and are not due go on waiting. -/
lemma kept (h : Settled k k') (hwaits : k.sched.Waits t) (hdue : ¬k.Due t)
    (htimeout : (k.sched.storage t).wait.timeout = false) :
    k'.sched.storage t = k.sched.storage t := by
  obtain ⟨s, rfl, hsettles⟩ := h
  have hsame := resumeAll_record_of_not hdue
  have hlive := k.resumeAll_awakens.live.mpr hwaits.live
  have hkept := hsettles.kept t hlive
  rw [hsame] at hkept
  exact hkept hwaits.state hwaits.terminate fun htrue => by simp [htimeout] at htrue

end Settled

end System

/-! ## The tables -/

namespace Action

/-- The actions that may change a mutex. -/
def onMutexes : Action → Bool
  | .createMutex _ | .lockMutex _ _ | .unlockMutex _ | .destroyMutex _ | .threadKill _ => true
  | _ => false

/-- The actions that may change an event queue. -/
def onQueues : Action → Bool
  | .eventInitQueue _ | .eventDoneQueue _ | .eventWatchQueue _ | .eventPut _ _ | .eventGet _
  | .threadKill _ => true
  | _ => false

/-- The actions that may change a barrier, apart from the calls of the scheduler. -/
def onBarriers : Action → Bool
  | .barrierCreate _ _ | .barrierDone _ | .barrierOpen _ | .barrierClose _ | .waitForBarrier _
  | .threadMaySuspend | .threadKill _ => true
  | _ => false

/-- The actions that may change a wait queue or a poll table. -/
def onItems : Action → Bool
  | .ioWaitInit _ | .ioWait _ _ _ | .ioResume _ | .poll _ _ _ _ | .finish _ | .threadKill _ => true
  | _ => false

/-- The call that an action blocks its thread in. -/
def call : Action → Call
  | .lockMutex m msecs => .lock m msecs
  | .waitForEvents q msecs => .events q msecs
  | .waitForBarrier b => .barrier b
  | .ioWait w _ msecs => .io w msecs
  | .poll table _ _ _ => .poll table
  | _ => .none

end Action

namespace System

variable {k k' : System N}

/-- The parts that are not about wait queues and poll tables. -/
structure SameButItems (k k' : System N) : Prop where
  sched : k'.sched = k.sched
  mutexes : k'.mutexes = k.mutexes
  mutex : k'.mutex = k.mutex
  evQueues : k'.evQueues = k.evQueues
  evQueue : k'.evQueue = k.evQueue
  evIds : k'.evIds = k.evIds
  barriers : k'.barriers = k.barriers
  barrier : k'.barrier = k.barrier
  waitQueues : k'.waitQueues = k.waitQueues
  call : k'.call = k.call

lemma resumeItems_same {w : Nat} {l : List Nat} (h : resumeItems w l k = some k') :
    SameButItems k k' := by
  obtain ⟨_, _, _, _, _, rfl⟩ := resumeItems_shape l h
  constructor <;> rfl

lemma cleanup_same {table : Nat} (h : k.cleanup table = some k') : SameButItems k k' := by
  obtain ⟨_, _, rfl⟩ := cleanup_shape h
  constructor <;> rfl

lemma cancelIoWaits_same (k : System N) (tid : Nat) : SameButItems k (k.cancelIoWaits tid) := by
  obtain ⟨_, _, heq⟩ := cancelItems_shape tid k.waitQueues k
  unfold cancelIoWaits
  rw [heq]
  constructor <;> rfl

lemma pollFirst_same {table : Nat} {l : List (Option PollAnswer)} {ok : Bool}
    (h : pollFirst table l (k.withTable table) = (k', ok)) : SameButItems k k' := by
  obtain ⟨_, _, _, heq⟩ := pollFirst_shape table l (k.withTable table)
  rw [h] at heq
  dsimp only at heq
  rw [heq]
  constructor <;> rfl

lemma SameButItems.trans {k'' : System N} (h : SameButItems k k') (h' : SameButItems k' k'') :
    SameButItems k k'' :=
  ⟨h'.sched.trans h.sched, h'.mutexes.trans h.mutexes, h'.mutex.trans h.mutex,
    h'.evQueues.trans h.evQueues, h'.evQueue.trans h.evQueue, h'.evIds.trans h.evIds,
    h'.barriers.trans h.barriers, h'.barrier.trans h.barrier,
    h'.waitQueues.trans h.waitQueues, h'.call.trans h.call⟩

/-- What is cancelled for each set of wait flags. -/
lemma cancelWait_cases {tid : Nat} (h : k.cancelWait tid = some k') :
    ((k.sched.storage tid).wait = .EVENT ∧ ∃ q,
      k.evQueues.find? (fun q => (k.evQueue q).threadid = tid) = some q ∧
      k' = k.setQueue q { k.evQueue q with threadid := THREAD_TID_INVALID }) ∨
    ((k.sched.storage tid).wait = .BARRIER ∧ ∃ b,
      k.barriers.find? (fun b => (k.barrier b).ids tid) = some b ∧
      k' = k.setBarrier b
        { k.barrier b with ids := update (k.barrier b).ids tid false }) ∨
    ((k.sched.storage tid).wait = .COMPLETION ∧ k' = k.cancelIoWaits tid) ∨
    ((k.sched.storage tid).wait = .MUTEX ∧ ∃ mutex queues,
      cancelWaitOnMutex k.knows tid k.mutex k.mutexes = some (mutex, .EOK) ∧
      k.sched.queues.enqueue .dead tid = some queues ∧
      k' = { k with
        mutex := mutex
        sched := (k.sched.setThread tid
          { k.sched.storage tid with state := .dead }).setQueues queues }) ∨
    ((∀ flags ∈ [WaitFlags.EVENT, .BARRIER, .COMPLETION, .MUTEX],
      (k.sched.storage tid).wait ≠ flags) ∧ k' = k) := by
  unfold cancelWait at h
  dsimp only at h
  split at h
  · next hwait =>
      unfold cancelWaitForEvents at h
      split at h
      · obtain ⟨q, hfind, rfl⟩ := Option.map_eq_some_iff.mp h
        exact .inl ⟨hwait, q, hfind, rfl⟩
      · contradiction
  · next hevent =>
      split at h
      · next hwait =>
          unfold cancelWaitForBarrier at h
          split at h
          · obtain ⟨b, hfind, rfl⟩ := Option.map_eq_some_iff.mp h
            exact .inr (.inl ⟨hwait, b, hfind, rfl⟩)
          · contradiction
      · next hbarrier =>
          split at h
          · next hwait =>
              cases h
              exact .inr (.inr (.inl ⟨hwait, rfl⟩))
          · next hio =>
              split at h
              · next hwait =>
                  split at h
                  · next mutex hcancel =>
                      obtain ⟨queues, henq, rfl⟩ := Option.map_eq_some_iff.mp h
                      exact .inr (.inr (.inr
                        (.inl ⟨hwait, mutex, queues, hcancel, henq, rfl⟩)))
                  · contradiction
              · next hmutex =>
                  cases h
                  refine .inr (.inr (.inr (.inr ⟨fun flags hflags => ?_, rfl⟩)))
                  simp only [List.mem_cons, List.not_mem_nil, or_false] at hflags
                  rcases hflags with rfl | rfl | rfl | rfl
                  · exact hevent
                  · exact hbarrier
                  · exact hio
                  · exact hmutex

/-- A cancellation changes no other thread and no call. -/
lemma cancelWait_others {tid : Nat} (h : k.cancelWait tid = some k') :
    k'.call = k.call ∧ ∀ t, t ≠ tid → k'.sched.storage t = k.sched.storage t := by
  rcases cancelWait_cases h with ⟨-, q, -, rfl⟩ | ⟨-, b, -, rfl⟩ | ⟨-, rfl⟩ |
    ⟨-, mutex, queues, -, -, rfl⟩ | ⟨-, rfl⟩
  · exact ⟨rfl, fun _ _ => rfl⟩
  · exact ⟨rfl, fun _ _ => rfl⟩
  · have hsame := cancelIoWaits_same k tid
    exact ⟨hsame.call, fun t _ => by rw [hsame.sched]⟩
  · exact ⟨rfl, fun t ht => by simp [ht]⟩
  · exact ⟨rfl, fun _ _ => rfl⟩

end System

/-- The tables that an action has nothing to do with are unchanged. -/
structure Framed (a : Action) (k k' : System N) : Prop where
  mutexes : a.onMutexes = false → k'.mutexes = k.mutexes ∧ k'.mutex = k.mutex
  queues : a.onQueues = false → k'.evQueues = k.evQueues ∧ k'.evQueue = k.evQueue
  barriers : a.onBarriers = false → k'.barriers = k.barriers ∧ k'.barrier = k.barrier
  items : a.onItems = false → k'.waitQueues = k.waitQueues ∧ k'.waitQueue = k.waitQueue ∧
    k'.item = k.item ∧ k'.pollTables = k.pollTables ∧ k'.pollTable = k.pollTable

namespace Framed

variable {k k' : System N} {a : Action}

lemma of_sameButItems (h : System.SameButItems k k') (ha : a.onItems = true) :
    Framed a k k' :=
  ⟨fun _ => ⟨h.mutexes, h.mutex⟩, fun _ => ⟨h.evQueues, h.evQueue⟩,
    fun _ => ⟨h.barriers, h.barrier⟩, fun hno => by simp [ha] at hno⟩

lemma of_sameTables (h : System.SameTables k k') (ha : a.onBarriers = true) :
    Framed a k k' :=
  ⟨fun _ => ⟨h.mutexes, h.mutex⟩, fun _ => ⟨h.evQueues, h.evQueue⟩,
    fun hno => by simp [ha] at hno,
    fun _ => ⟨h.waitQueues, h.waitQueue, h.item, h.pollTables, h.pollTable⟩⟩

end Framed

namespace Effect

variable {strict : Prop} {k k' : System N} {a : Action} {outcome : Outcome} {t : Nat}

variable (h : Effect k a k' outcome)
include h

/-- The frame of an effect. -/
lemma framed : Framed a k k' := by
  cases h with
  | stayed hupdate => exact .of_sameTables (System.sameTables_updateSchedule hupdate) rfl
  | gaveWay hupdate hrun =>
    have hsame := System.sameTables_updateSchedule hupdate
    exact .of_sameTables ⟨hsame.mutexes, hsame.mutex, hsame.evQueues, hsame.evQueue,
      hsame.barriers, hsame.waitQueues, hsame.waitQueue, hsame.item, hsame.pollTables,
      hsame.pollTable, (update_eq_self _ _).trans hsame.call⟩ rfl
  | barrierDone hb =>
    obtain ⟨_, _, heq, -⟩ := System.resumeOnBarriers_eq k.barriers k
    rw [heq]
    constructor <;> simp [Action.onBarriers]
  | ioResumed hresume => exact .of_sameButItems (System.resumeItems_same hresume) rfl
  | pollFailed hfirst hclean | polled hfirst hclean hout =>
    exact .of_sameButItems
      ((System.pollFirst_same hfirst).trans (System.cleanup_same hclean)) rfl
  | pollWaits hrun hr hfirst hquiet htimeout =>
    have hsame := System.pollFirst_same hfirst
    refine ⟨fun _ => ⟨hsame.mutexes, hsame.mutex⟩, fun _ => ⟨hsame.evQueues, hsame.evQueue⟩,
      fun _ => ⟨hsame.barriers, hsame.barrier⟩, fun hno => by simp [Action.onItems] at hno⟩
  | pollFinished hrun hcall hclean hout =>
    have hsame := System.cleanup_same hclean
    refine ⟨fun _ => ⟨hsame.mutexes, hsame.mutex⟩, fun _ => ⟨hsame.evQueues, hsame.evQueue⟩,
      fun _ => ⟨hsame.barriers, hsame.barrier⟩, fun hno => by simp [Action.onItems] at hno⟩
  | killed => constructor <;> simp [Action.onMutexes, Action.onQueues, Action.onBarriers,
      Action.onItems]
  | _ =>
    constructor <;> intro hno <;>
      first
      | exact ⟨rfl, rfl⟩
      | exact ⟨rfl, rfl, rfl, rfl, rfl⟩
      | simp [Action.onMutexes, Action.onQueues, Action.onBarriers, Action.onItems] at hno

/-- A call goes on, ends, or is begun by the running thread. -/
lemma call_cases (hmay : a ≠ .threadMaySuspend) :
    k'.call t = k.call t ∨ k'.call t = .none ∨
      k.sched.running = some t ∧ k'.call t = a.call := by
  have hbegin : ∀ {r : Nat} {c : Call}, k.sched.running = some r →
      update k.call r c t = k.call t ∨
        k.sched.running = some t ∧ update k.call r c t = c := by
    intro r c hr
    by_cases ht : t = r
    · subst ht
      exact .inr ⟨hr, update_self ..⟩
    · exact .inl (update_of_ne ht _ _)
  cases h with
  | stayed | gaveWay => exact absurd rfl hmay
  | @created name prio tid =>
    by_cases ht : t = tid
    · subst ht
      exact .inr (.inl (update_self ..))
    · exact .inl (update_of_ne ht _ _)
  | finished hr => exact (hbegin hr).imp_right fun hnew => .inl hnew.2
  | suspended hr | delayed hr | terminated hr =>
    exact .inl (congrFun (update_eq_self _ _) t)
  | killed _ _ _ _ hcancel => exact .inl (congrFun (System.cancelWait_others hcancel).1 t)
  | barrierDone hb =>
    obtain ⟨_, _, heq, -⟩ := System.resumeOnBarriers_eq k.barriers k
    rw [heq]
    exact .inl rfl
  | ioResumed hresume =>
    rw [(System.resumeItems_same hresume).call]
    exact .inl rfl
  | pollFailed hfirst hclean | polled hfirst hclean hout =>
    rw [((System.pollFirst_same hfirst).trans (System.cleanup_same hclean)).call]
    exact .inl rfl
  | pollFinished hr hcall hclean hout =>
    rw [(System.cleanup_same hclean).call]
    exact (hbegin hr).imp_right fun hnew => .inl hnew.2
  | pollWaits hr hidle hfirst =>
    have hsame := (System.pollFirst_same hfirst).call
    unfold System.blocked
    dsimp only
    rw [hsame]
    exact (hbegin hr).imp_right .inr
  | lockWaits _ hr | eventWaits _ hr | barrierWaits _ hr | ioWaits hr =>
    exact (hbegin hr).imp_right .inr
  | _ => exact .inl rfl

/-- A waiting thread that is not killed goes on waiting, or is resumed through a mutex or
through a barrier that ends. -/
theorem waiting_record (hsound : Sound strict k)
    (hlive : k.sched.Live t) (hstate : (k.sched.storage t).state = .waiting)
    (hkill : a ≠ .threadKill t) (hmay : a ≠ .threadMaySuspend) :
    k'.sched.storage t = k.sched.storage t ∨
    k'.sched.storage t = (k.sched.storage t).resumed ∧
      ((k.sched.storage t).wait.mutex = true ∧ (∃ m m', a = .unlockMutex m ∧
        (k.mutex m).unlockMutex k.knows k.sched.runningTid = some (m', true) ∧
        t = m'.lockerTid) ∨
      (k.sched.storage t).wait.barrier = true ∧ ∃ b, a = .barrierDone b) := by
  have hother : ∀ {r : Nat}, k.sched.running = some r → t ≠ r := by
    rintro r hr rfl
    rw [(hsound.runner t hr).1] at hstate
    contradiction
  cases h with
  | stayed hupdate => exact absurd rfl hmay
  | gaveWay hupdate => exact absurd rfl hmay
  | created hlt hdead =>
    refine .inl (update_of_ne ?_ _ _)
    rintro rfl
    exact hdead hlive
  | killed hself hliveTid hidle hwaits hcancel =>
    have ht : t ≠ _ := fun heq => hkill (congrArg _ heq.symm)
    exact .inl ((update_of_ne ht _ _).trans
      ((System.cancelWait_others hcancel).2 t ht))
  | killedReady hself hliveTid hidle hready =>
    refine .inl (update_of_ne ?_ _ _)
    rintro rfl
    exact hkill rfl
  | killedLost hself hliveTid hidle hready =>
    refine .inl (update_of_ne ?_ _ _)
    rintro rfl
    exact hkill rfl
  | unlocked hm hunlock =>
    rcases k.sched.wakeAll_cases .MUTEX (fun t => t == _) t with heq | ⟨hT, hres, heq⟩
    · exact .inl heq
    · exact .inr ⟨heq, .inl ⟨WaitFlags.inter_mutex.mp hres.2.2, _, _, rfl, hunlock,
        beq_iff_eq.mp hT⟩⟩
  | barrierDone hb =>
    obtain ⟨T, bar, hbar, -⟩ := System.resumeOnBarriers_eq k.barriers k
    rw [hbar]
    rcases k.sched.wakeAll_cases .BARRIER T t with heq | ⟨-, hres, heq⟩
    · exact .inl heq
    · exact .inr ⟨heq, .inr ⟨WaitFlags.inter_barrier.mp hres.2.2, _, rfl⟩⟩
  | ioResumed hresume => exact .inl (by rw [(System.resumeItems_same hresume).sched])
  | pollFailed hfirst hclean =>
    rw [((System.pollFirst_same hfirst).trans (System.cleanup_same hclean)).sched]
    exact .inl rfl
  | pollWaits hr hidle hfirst =>
    refine .inl ((update_of_ne (hother hr) _ _).trans ?_)
    rw [(System.pollFirst_same hfirst).sched]
  | polled hfirst hclean hout =>
    rw [((System.pollFirst_same hfirst).trans (System.cleanup_same hclean)).sched]
    exact .inl rfl
  | pollFinished hr hcall hclean hout =>
    rw [(System.cleanup_same hclean).sched]
    exact .inl rfl
  | suspended hr | delayed hr | terminated hr | lockWaits _ hr | eventWaits _ hr
  | barrierWaits _ hr | ioWaits hr =>
    exact .inl (update_of_ne (hother hr) _ _)
  | _ => exact .inl rfl

end Effect

/-! ## Invariants of runs -/

/-- `thread_may_suspend` is an update, and may be a suspension then. -/
lemma Sound.maySuspend_rule {strict : Prop} {k k' : System N} {outcome : Outcome}
    {P : System N → Prop} (h : Sound strict k) (hallowed : k.Allowed .threadMaySuspend)
    (hact : k.act .threadMaySuspend = some (k', outcome))
    (hupdate : ∀ k₁, k.updateSchedule = some k₁ → P k₁)
    (hsuspend : ∀ k₁, Sound strict k₁ → P k₁ → k₁.Allowed .threadSuspend →
      k₁.act .threadSuspend = some (k', outcome) → P k') : P k' := by
  obtain ⟨L, hplaced⟩ := h.placed
  change k.threadMaySuspend = _ at hact
  unfold System.threadMaySuspend at hact
  split at hact
  · contradiction
  · obtain ⟨k₁, heq, hrest⟩ := Option.bind_eq_some_iff.mp hact
    obtain ⟨hsame, hsound₁, -⟩ := h.updateSchedule heq
    have h₁ := hupdate k₁ heq
    split at hrest
    · cases hrest
      exact h₁
    · obtain ⟨r, hr, -, hcall⟩ := hallowed
      have hallowed₁ : k₁.Allowed .threadSuspend := by
        refine ⟨r, hsame.trans hr, ?_⟩
        rw [(System.updateSchedule_settled hplaced heq).tables.call]
        exact hcall
      exact hsuspend k₁ hsound₁ h₁ hallowed₁ hrest

/-- An action that blocks or wakes a thread is followed by `schedule_thread`. -/
lemma Sound.exec_rule {strict : Prop} {k k' : System N} {a : Action} {P : System N → Prop}
    (h : Sound strict k) (hallowed : k.Allowed a) (hspares : Spares strict k a)
    (hexec : k.exec a = some k')
    (hacts : ∀ k₁ outcome, k.act a = some (k₁, outcome) → P k₁)
    (hschedules : ∀ k₁ L, Placed strict k₁.sched [] L → P k₁ → k₁.scheduleThread = some k' →
      P k') : P k' := by
  obtain ⟨⟨k₁, outcome⟩, hact, hrest⟩ := Option.bind_eq_some_iff.mp hexec
  have h₁ := hacts k₁ outcome hact
  dsimp only at hrest
  split at hrest
  · next hout =>
      obtain ⟨L, hplaced⟩ := (h.act hallowed hspares hact).placed
      rw [if_pos hout] at hplaced
      exact hschedules k₁ L hplaced h₁ hrest
  · cases hrest
    exact h₁

/-- The actions that fulfil a condition keep a property, and so do updates. -/
structure Keeps (C : System N → Action → Prop) (P : System N → Prop) : Prop where
  spares : ∀ k a, C k a → Spares False k a
  suspend : ∀ k, C k .threadSuspend
  effect : ∀ k a k' outcome, Sound False k → P k → k.Allowed a → C k a →
    a ≠ .threadMaySuspend → Effect k a k' outcome → P k'
  settle : ∀ k k', P k → System.Settled k k' → P k'

namespace Keeps

variable {C : System N → Action → Prop} {P : System N → Prop} {k k' : System N} {a : Action}
  {outcome : Outcome}

/-- What an action does up to `schedule_thread` keeps the property. -/
lemma act (h : Keeps C P) (hsound : Sound False k) (hP : P k) (hallowed : k.Allowed a)
    (hC : C k a) (hact : k.act a = some (k', outcome)) : P k' := by
  have heffect := hsound.effect hallowed hact
  by_cases hmay : a = .threadMaySuspend
  · subst hmay
    obtain ⟨L, hplaced⟩ := hsound.placed
    cases heffect with
    | unchanged hout => exact hP
    | stayed hupdate => exact h.settle k k' hP (System.updateSchedule_settled hplaced hupdate)
    | @gaveWay k₁ r queues hupdate hrun =>
      have hsettled := System.updateSchedule_settled hplaced hupdate
      obtain ⟨hsame, hsound₁, -⟩ := hsound.updateSchedule hupdate
      obtain ⟨r', hr', -, hcall⟩ := hallowed
      have hallowed₁ : k₁.Allowed .threadSuspend := by
        refine ⟨r', hsame.trans hr', ?_⟩
        rw [hsettled.tables.call]
        exact hcall
      exact h.effect k₁ .threadSuspend _ .schedules hsound₁ (h.settle k k₁ hP hsettled)
        hallowed₁ (h.suspend k₁) (by simp) (.suspended hrun)
  · exact h.effect k a k' outcome hsound hP hallowed hC hmay heffect

lemma exec (h : Keeps C P) (hsound : Sound False k) (hP : P k) (hallowed : k.Allowed a)
    (hC : C k a) (hexec : k.exec a = some k') : P k' :=
  hsound.exec_rule hallowed (h.spares k a hC) hexec
    (fun _ _ hact => h.act hsound hP hallowed hC hact)
    fun k₁ _ hplaced hP₁ hrest =>
      h.settle k₁ k' hP₁ (System.scheduleThread_settled hplaced hrest)

/-- The property holds at the end of every run. -/
theorem runs (h : Keeps C P) (hsound : Sound False k) (hP : P k)
    (hrun : PartialRuns System.exec (fun k a => k.Allowed a ∧ C k a) k k') :
    Sound False k' ∧ P k' :=
  hrun.invariant (P := fun k => Sound False k ∧ P k)
    (fun k a _ hk hok hexec => ⟨hk.1.exec hok.1 (h.spares k a hok.2) hexec,
      h.exec hk.1 hk.2 hok.1 hok.2 hexec⟩) ⟨hsound, hP⟩

end Keeps

end DiegOS.Kernel
