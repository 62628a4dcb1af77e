import DiegOS.Kernel.Threads
import DiegOS.Lib.RingBuffer
import DiegOS.Lib.Runs
import Mathlib.Data.Finset.Card
import Mathlib.Data.Finset.Range

/-!
# Mutexes

`mutex.c`: a mutex stores the id of its locker and the ids of the waiting
threads in a circular buffer.  A cancelled waiter leaves a hole that stays until
an unlock reaches it.  With the holes left out, a mutex is an owner and a first
in, first out list of waiters, as long as the holes leave a slot for the next
waiter.

Main results:

- Theorem `Mutex.unlockMutex_handover`: an unlock hands the mutex over to the
  oldest waiter.
- Theorem `mutex_refines_fifo`: exactly when a call does what the owner and
  the list of waiters do.
-/

namespace DiegOS.Kernel

open Lib Function

/-! ## The code -/

/-- A mutex; `threadIds` are the used slots of `idsBuffer`. -/
structure Mutex where
  threadIds : Ring
  idsBuffer : Nat → Nat
  lockerTid : Nat

namespace Mutex

/-- A new mutex for at most `N` threads. -/
def init (N : Nat) : Mutex := ⟨.init N, fun _ => THREAD_TID_INVALID, THREAD_TID_INVALID⟩

/-- `lock_mutex`; `live` tells the ids that `get_thread` knows. -/
def lockMutex (live : Nat → Bool) (tid : Nat) (m : Mutex) : Mutex × Bool :=
  if live tid = false then (m, false)
  else if tid = m.lockerTid then (m, false)
  else if m.lockerTid = THREAD_TID_INVALID then ({ m with lockerTid := tid }, true)
  else if m.threadIds.freeSpace = 0 then (m, false)
  else
    ({ m with
        idsBuffer := Function.update m.idsBuffer m.threadIds.tail tid
        threadIds := m.threadIds.add }, true)

/-- Drop the cancelled ids at the head of a buffer that is not empty; the first argument
counts the used slots. -/
def skipCancelled : Nat → Mutex → Mutex
  | 0, m => m
  | n + 1, m =>
    if m.idsBuffer m.threadIds.head = THREAD_TID_INVALID then
      let m' := { m with threadIds := m.threadIds.remove }
      if m'.threadIds.isEmpty then m' else skipCancelled n m'
    else m

/-- `unlock_mutex`; no result if the next locker is no live thread. -/
def unlockMutex (live : Nat → Bool) (tid : Nat) (m : Mutex) : Option (Mutex × Bool) :=
  if m.lockerTid = THREAD_TID_INVALID ∨ tid ≠ m.lockerTid then some (m, false)
  else
    let m' := if m.threadIds.isEmpty then m else skipCancelled m.threadIds.inUse m
    if m'.threadIds.isEmpty then some ({ m' with lockerTid := THREAD_TID_INVALID }, true)
    else
      let next := m'.idsBuffer m'.threadIds.head
      if live next then
        some ({ m' with threadIds := m'.threadIds.remove, lockerTid := next }, true)
      else none

/-- `mutex_is_locked` -/
def isLocked (m : Mutex) : Bool := m.lockerTid ≠ THREAD_TID_INVALID

/-- One turn of the loop of `cancel_wait_on_mutex`: none if this mutex does not know
the thread. -/
def cancelWait (live : Nat → Bool) (tid : Nat) (m : Mutex) : Option (Option (Mutex × Code)) :=
  if m.lockerTid = tid then
    (unlockMutex live tid m).map fun r => some (r.1, if r.2 then .EOK else .EPERM)
  else
    match m.threadIds.positions.find? fun i => m.idsBuffer i = tid with
    | some i =>
      some (some ({ m with idsBuffer := Function.update m.idsBuffer i THREAD_TID_INVALID }, .EOK))
    | none => some none

end Mutex

/-- `cancel_wait_on_mutex`: the first mutex of the list that knows the thread. -/
def cancelWaitOnMutex (live : Nat → Bool) (tid : Nat) (mutex : Nat → Mutex) :
    List Nat → Option ((Nat → Mutex) × Code)
  | [] => some (mutex, .EINVAL)
  | a :: l =>
    match (mutex a).cancelWait live tid with
    | none => none
    | some none => cancelWaitOnMutex live tid mutex l
    | some (some (m, code)) => some (Function.update mutex a m, code)

/-! ## The waiters of a mutex -/

namespace Mutex

/-- The ids in the buffer, oldest first. -/
def ids (m : Mutex) : List Nat := m.threadIds.positions.map m.idsBuffer

/-- The ids in the buffer that are not cancelled, oldest first. -/
def waiters (m : Mutex) : List Nat := m.ids.filter fun t => t ≠ THREAD_TID_INVALID

/-- The buffer is a ring of `N` slots. -/
structure Valid (N : Nat) (m : Mutex) : Prop where
  ring : m.threadIds.Valid
  size : m.threadIds.bufsize = N

variable {N tid : Nat} {m : Mutex} {live : Nat → Bool}

lemma init_valid (hN : 0 < N) : (init N).Valid N := ⟨Ring.init_valid hN, rfl⟩

lemma ids_init : (init N).ids = [] := by
  rw [ids, init, Ring.positions_init]
  rfl

lemma waiters_init : (init N).waiters = [] := by
  rw [waiters, ids_init]
  rfl

lemma ids_length : m.ids.length = m.threadIds.inUse := by
  rw [ids, List.length_map, Ring.positions_length]

lemma Valid.ids_eq_nil (h : m.Valid N) : m.ids = [] ↔ m.threadIds.isEmpty = true := by
  rw [h.ring.isEmpty_iff, ← ids_length, List.length_eq_zero_iff]

/-- Taking the head slot out of the buffer. -/
lemma Valid.ids_remove (h : m.Valid N) (huse : m.threadIds.inUse ≠ 0) :
    m.ids = m.idsBuffer m.threadIds.head ::
      ({ m with threadIds := m.threadIds.remove } : Mutex).ids := by
  rw [ids, Ring.positions_remove h.ring huse, List.map_cons]
  rfl

/-- Putting an id into the tail slot. -/
lemma Valid.ids_add (h : m.Valid N) (tid : Nat)
    (hroom : m.threadIds.inUse + 1 < m.threadIds.bufsize) :
    ({ m with idsBuffer := update m.idsBuffer m.threadIds.tail tid,
              threadIds := m.threadIds.add } : Mutex).ids = m.ids ++ [tid] := by
  simp only [ids]
  rw [Ring.positions_add h.ring hroom, List.map_append, List.map_singleton, update_self]
  refine congrArg (· ++ [tid]) (List.map_congr_left fun i hi => ?_)
  refine update_of_ne ?_ _ _
  rintro rfl
  exact Ring.tail_not_mem h.ring hi

/-- Skipping the cancelled ids leaves the waiters, and the oldest of them at the head. -/
lemma skipCancelled_spec (n : Nat) :
    ∀ m : Mutex, m.Valid N → m.threadIds.inUse = n → m.threadIds.inUse ≠ 0 →
      (skipCancelled n m).Valid N ∧ (skipCancelled n m).waiters = m.waiters ∧
      (skipCancelled n m).ids <:+ m.ids ∧
      (∀ t ∈ (skipCancelled n m).ids.head?, t ≠ THREAD_TID_INVALID) := by
  induction n with
  | zero => exact fun m _ hn huse => absurd hn huse
  | succ n ih =>
    intro m hm hn huse
    have hremove := hm.ring.inUse_remove huse
    have hids := hm.ids_remove huse
    have hm' : ({ m with threadIds := m.threadIds.remove } : Mutex).Valid N :=
      ⟨hm.ring.remove, hm.size⟩
    rw [skipCancelled]
    by_cases hhole : m.idsBuffer m.threadIds.head = THREAD_TID_INVALID
    · have hwait : ({ m with threadIds := m.threadIds.remove } : Mutex).waiters = m.waiters := by
        rw [waiters, waiters, hids, hhole]
        simp
      have hsuffix : ({ m with threadIds := m.threadIds.remove } : Mutex).ids <:+ m.ids := by
        rw [hids]
        exact List.suffix_cons _ _
      rw [if_pos hhole]
      by_cases hempty : m.threadIds.remove.isEmpty = true
      · rw [if_pos hempty]
        refine ⟨hm', hwait, hsuffix, fun t ht => ?_⟩
        rw [hm'.ids_eq_nil.mpr hempty] at ht
        simp at ht
      · rw [if_neg hempty]
        have huse' : m.threadIds.remove.inUse ≠ 0 :=
          fun hzero => hempty (hm'.ring.isEmpty_iff.mpr hzero)
        obtain ⟨hvalid, heq, hsuff, hhead⟩ := ih _ hm' (by dsimp only; omega) huse'
        exact ⟨hvalid, heq.trans hwait, hsuff.trans hsuffix, hhead⟩
    · rw [if_neg hhole]
      refine ⟨hm, rfl, List.suffix_refl _, fun t ht => ?_⟩
      rw [hids] at ht
      obtain rfl : m.idsBuffer m.threadIds.head = t := by simpa using ht
      exact hhole

/-- An unlock by the locker hands the mutex over to the oldest waiter or frees it; without
result if this waiter does not live. -/
lemma unlockMutex_eq (live : Nat → Bool) (hm : m.Valid N)
    (hheld : m.lockerTid ≠ THREAD_TID_INVALID) :
    ∃ m', m'.Valid N ∧ m'.lockerTid = m.waiters.head?.getD THREAD_TID_INVALID ∧
      m'.waiters = m.waiters.tail ∧ m'.ids <:+ m.ids ∧
      unlockMutex live m.lockerTid m =
        if m.waiters.head?.all live then some (m', true) else none := by
  have hguard : ¬(m.lockerTid = THREAD_TID_INVALID ∨ m.lockerTid ≠ m.lockerTid) := by
    simpa using hheld
  rw [unlockMutex, if_neg hguard]
  -- what is left after the cancelled ids at the head
  obtain ⟨m₁, hm₁, hvalid, hwait, hsuffix, hhead⟩ : ∃ m₁,
      (if m.threadIds.isEmpty = true then m else skipCancelled m.threadIds.inUse m) = m₁ ∧
      m₁.Valid N ∧ m₁.waiters = m.waiters ∧ m₁.ids <:+ m.ids ∧
      ∀ t ∈ m₁.ids.head?, t ≠ THREAD_TID_INVALID := by
    by_cases hempty : m.threadIds.isEmpty = true
    · refine ⟨m, if_pos hempty, hm, rfl, List.suffix_refl _, fun t ht => ?_⟩
      rw [hm.ids_eq_nil.mpr hempty] at ht
      simp at ht
    · have huse : m.threadIds.inUse ≠ 0 := fun hzero => hempty (hm.ring.isEmpty_iff.mpr hzero)
      obtain ⟨hvalid, hwait, hsuffix, hhead⟩ := skipCancelled_spec _ m hm rfl huse
      exact ⟨_, if_neg hempty, hvalid, hwait, hsuffix, hhead⟩
  rw [hm₁]
  by_cases hempty : m₁.threadIds.isEmpty = true
  · have hnil : m.waiters = [] := by
      rw [← hwait, waiters, hvalid.ids_eq_nil.mpr hempty]
      rfl
    rw [if_pos hempty]
    refine ⟨{ m₁ with lockerTid := THREAD_TID_INVALID }, ⟨hvalid.ring, hvalid.size⟩, ?_, ?_,
      hsuffix, ?_⟩
    · rw [hnil]
      rfl
    · rw [hnil]
      exact hwait.trans hnil
    · rw [hnil]
      rfl
  · have huse : m₁.threadIds.inUse ≠ 0 := fun hzero => hempty (hvalid.ring.isEmpty_iff.mpr hzero)
    have hids := hvalid.ids_remove huse
    have hne : m₁.idsBuffer m₁.threadIds.head ≠ THREAD_TID_INVALID :=
      hhead _ (by rw [hids]; rfl)
    have hcons : m.waiters = m₁.idsBuffer m₁.threadIds.head ::
        ({ m₁ with threadIds := m₁.threadIds.remove } : Mutex).waiters := by
      rw [← hwait, waiters, waiters, hids, List.filter_cons_of_pos (by simpa using hne)]
    rw [if_neg hempty, hcons]
    refine ⟨{ m₁ with
        threadIds := m₁.threadIds.remove
        lockerTid := m₁.idsBuffer m₁.threadIds.head },
      ⟨hvalid.ring.remove, hvalid.size⟩, rfl, rfl, List.IsSuffix.trans ?_ hsuffix, rfl⟩
    rw [hids]
    exact List.suffix_cons _ _

/-- If the waiters live, an unlock by the locker succeeds. -/
theorem unlockMutex_handover (hm : m.Valid N) (hheld : m.lockerTid ≠ THREAD_TID_INVALID)
    (hlive : ∀ t ∈ m.waiters, live t = true) :
    ∃ m', unlockMutex live m.lockerTid m = some (m', true) ∧ m'.Valid N ∧
      m'.lockerTid = m.waiters.head?.getD THREAD_TID_INVALID ∧ m'.waiters = m.waiters.tail ∧
      m'.ids <:+ m.ids := by
  obtain ⟨m', hvalid, hlock, hwait, hsuffix, heq⟩ := unlockMutex_eq live hm hheld
  refine ⟨m', heq.trans (if_pos ?_), hvalid, hlock, hwait, hsuffix⟩
  cases hcons : m.waiters with
  | nil => rfl
  | cons w ws => exact hlive w (by simp [hcons])

/-- What an unlock that succeeds has done. -/
lemma unlockMutex_true (hm : m.Valid N) {m' : Mutex}
    (h : unlockMutex live tid m = some (m', true)) :
    tid = m.lockerTid ∧ tid ≠ THREAD_TID_INVALID ∧ m'.Valid N ∧
      m'.lockerTid = m.waiters.head?.getD THREAD_TID_INVALID ∧ m'.waiters = m.waiters.tail ∧
      ∀ t ∈ m.waiters.head?, live t = true := by
  by_cases hguard : m.lockerTid = THREAD_TID_INVALID ∨ tid ≠ m.lockerTid
  · rw [unlockMutex, if_pos hguard] at h
    simp at h
  · obtain ⟨hheld, hself⟩ := not_or.mp hguard
    obtain rfl : tid = m.lockerTid := Decidable.not_not.mp hself
    obtain ⟨m₁, hvalid, hlock, hwait, -, heq⟩ := unlockMutex_eq live hm hheld
    rw [heq] at h
    split at h
    · next hall =>
        cases h
        exact ⟨rfl, hheld, hvalid, hlock, hwait, (Option.all_eq_true ..).mp hall⟩
    · contradiction

/-- A refused unlock changes nothing. -/
lemma unlockMutex_false {m' : Mutex} (h : unlockMutex live tid m = some (m', false)) :
    m' = m := by
  unfold unlockMutex at h
  split at h
  · cases h
    rfl
  · dsimp only at h
    generalize (if m.threadIds.isEmpty then m
      else skipCancelled m.threadIds.inUse m) = m₁ at h
    split at h
    · cases h
    · split at h <;> cases h

/-- A refused lock changes nothing. -/
lemma lockMutex_false {m' : Mutex} (h : lockMutex live tid m = (m', false)) : m' = m := by
  unfold lockMutex at h
  split at h
  · exact (Prod.mk.inj h).1.symm
  · split at h
    · exact (Prod.mk.inj h).1.symm
    · split at h
      · cases h
      · split at h
        · exact (Prod.mk.inj h).1.symm
        · cases h

/-- What a lock on a held mutex that succeeds has done. -/
lemma lockMutex_true (hm : m.Valid N) (htid : tid ≠ THREAD_TID_INVALID)
    (hheld : m.lockerTid ≠ THREAD_TID_INVALID) {m' : Mutex}
    (h : lockMutex live tid m = (m', true)) :
    m'.Valid N ∧ m'.lockerTid = m.lockerTid ∧ m'.waiters = m.waiters ++ [tid] := by
  unfold lockMutex at h
  split at h
  · simp at h
  · split at h
    · simp at h
    · split at h
      · simp at h
      · next hspace =>
          cases h
          have hroom : m.threadIds.inUse + 1 < m.threadIds.bufsize := by
            rw [hm.ring.freeSpace_eq] at hspace
            omega
          refine ⟨⟨hm.ring.add, hm.size⟩, rfl, ?_⟩
          rw [waiters, hm.ids_add tid hroom, List.filter_append, List.filter_singleton]
          simp [htid, waiters]

/-- A lock on a held mutex with a free slot appends the caller. -/
lemma lockMutex_wait (hm : m.Valid N) (hlive : live tid = true) (hne : tid ≠ m.lockerTid)
    (hheld : m.lockerTid ≠ THREAD_TID_INVALID) (hroom : m.threadIds.inUse + 1 < N)
    (htid : tid ≠ THREAD_TID_INVALID) :
    ∃ m', lockMutex live tid m = (m', true) ∧ m'.Valid N ∧ m'.lockerTid = m.lockerTid ∧
      m'.waiters = m.waiters ++ [tid] ∧ m'.ids = m.ids ++ [tid] := by
  have hspace : m.threadIds.freeSpace ≠ 0 := by
    rw [hm.ring.freeSpace_eq, hm.size]
    omega
  have hids := hm.ids_add tid (by rw [hm.size]; exact hroom)
  have heq : lockMutex live tid m =
      ({ m with idsBuffer := update m.idsBuffer m.threadIds.tail tid,
                threadIds := m.threadIds.add }, true) := by
    rw [lockMutex, if_neg (by simp [hlive]), if_neg hne, if_neg hheld, if_neg hspace]
  refine ⟨_, heq, ⟨hm.ring.add, hm.size⟩, rfl, ?_, hids⟩
  rw [waiters, hids, List.filter_append, List.filter_singleton]
  simp [htid, waiters]

/-- A lock on a held mutex without a free slot is refused. -/
lemma lockMutex_full (hm : m.Valid N) (hfull : ¬m.threadIds.inUse + 1 < N)
    (hheld : m.lockerTid ≠ THREAD_TID_INVALID) : lockMutex live tid m = (m, false) := by
  have hspace : m.threadIds.freeSpace = 0 := by
    rw [hm.ring.freeSpace_eq, hm.size]
    omega
  simp [lockMutex, hheld, hspace]

/-- A lock on a free mutex takes it. -/
lemma lockMutex_free (hlive : live tid = true) (hfree : m.lockerTid = THREAD_TID_INVALID)
    (htid : tid ≠ THREAD_TID_INVALID) :
    lockMutex live tid m = ({ m with lockerTid := tid }, true) := by
  rw [lockMutex, if_neg (by simp [hlive]), if_neg (by rw [hfree]; exact htid), if_pos hfree]

/-- Overwriting the first slot that holds an id erases the id from the waiters. -/
lemma filter_map_update {buf : Nat → Nat} {i : Nat} (htid : tid ≠ THREAD_TID_INVALID) :
    ∀ l : List Nat, l.Nodup → l.find? (fun j => buf j = tid) = some i →
      (l.map (update buf i THREAD_TID_INVALID)).filter
          (fun t => t ≠ THREAD_TID_INVALID) =
        ((l.map buf).filter fun t => t ≠ THREAD_TID_INVALID).erase tid := by
  intro l
  induction l with
  | nil => simp
  | cons j l ih =>
    intro hnodup hfind
    obtain ⟨hj, hl⟩ := List.nodup_cons.mp hnodup
    by_cases hbuf : buf j = tid
    · obtain rfl : j = i := by simpa [List.find?_cons, hbuf] using hfind
      have hrest : l.map (update buf j THREAD_TID_INVALID) = l.map buf :=
        List.map_congr_left fun k hk =>
          update_of_ne (by rintro rfl; exact hj hk) _ _
      simp [hbuf, htid, hrest]
    · have hfind' : l.find? (fun j => buf j = tid) = some i := by
        simpa [List.find?_cons, hbuf] using hfind
      have hji : j ≠ i := by
        rintro rfl
        exact hj (List.mem_of_find?_eq_some hfind')
      have hrest := ih hl hfind'
      by_cases hhole : buf j = THREAD_TID_INVALID
      · simpa [hji, hhole] using hrest
      · simpa [hji, hhole, hbuf] using hrest

/-- Cancelling a waiter that is not the locker erases it from the waiters. -/
lemma cancelWait_waiter (live : Nat → Bool) (hm : m.Valid N) (hne : m.lockerTid ≠ tid)
    (htid : tid ≠ THREAD_TID_INVALID) (hmem : tid ∈ m.waiters) :
    ∃ m', m.cancelWait live tid = some (some (m', .EOK)) ∧ m'.Valid N ∧
      m'.lockerTid = m.lockerTid ∧ m'.waiters = m.waiters.erase tid ∧
      m'.threadIds = m.threadIds := by
  have hex : ∃ i ∈ m.threadIds.positions, m.idsBuffer i = tid := by
    simpa [ids] using (List.mem_filter.mp hmem).1
  cases hfind : m.threadIds.positions.find? (fun i => m.idsBuffer i = tid) with
  | none =>
    obtain ⟨i, hi, heq⟩ := hex
    have hnot := List.find?_eq_none.mp hfind i hi
    simp [heq] at hnot
  | some i =>
    have heq : m.cancelWait live tid = some (some
        ({ m with idsBuffer := update m.idsBuffer i THREAD_TID_INVALID }, .EOK)) := by
      rw [cancelWait, if_neg hne, hfind]
    refine ⟨_, heq, ⟨hm.ring, hm.size⟩, rfl, ?_, rfl⟩
    exact filter_map_update htid _ (Ring.positions_nodup hm.ring) hfind

/-- Cancelling a thread that the mutex does not know changes nothing. -/
lemma cancelWait_unknown (live : Nat → Bool) (hne : m.lockerTid ≠ tid)
    (htid : tid ≠ THREAD_TID_INVALID)
    (hmem : tid ∉ m.waiters) : m.cancelWait live tid = some none := by
  have hfind : m.threadIds.positions.find? (fun i => m.idsBuffer i = tid) = none := by
    refine List.find?_eq_none.mpr fun i hi => ?_
    rw [decide_eq_true_iff]
    rintro rfl
    exact hmem (List.mem_filter.mpr ⟨List.mem_map.mpr ⟨i, hi, rfl⟩, by simpa using htid⟩)
  rw [cancelWait, if_neg hne, hfind]

end Mutex

/-! ## An owner and its waiters -/

/-- The owner of a lock and those who wait for it, oldest first. -/
structure FifoLock (α : Type) where
  owner : Option α
  waiters : List α
deriving DecidableEq

/-- A call of one of the three operations of a mutex. -/
inductive MutexOp where
  | lock (tid : Nat)
  | unlock (tid : Nat)
  | cancel (tid : Nat)
deriving DecidableEq

namespace FifoLock

/-- The oldest waiter becomes the owner. -/
def handOver {α : Type} (l : FifoLock α) : FifoLock α := ⟨l.waiters.head?, l.waiters.tail⟩

/-- What the operations are meant to do, and whether they succeed. -/
def exec (l : FifoLock Nat) : MutexOp → FifoLock Nat × Bool
  | .lock t =>
    match l.owner with
    | none => ({ l with owner := some t }, true)
    | some o => if o = t then (l, false) else ({ l with waiters := l.waiters ++ [t] }, true)
  | .unlock t => if l.owner = some t then (l.handOver, true) else (l, false)
  | .cancel t =>
    if l.owner = some t then (l.handOver, true)
    else if t ∈ l.waiters then ({ l with waiters := l.waiters.erase t }, true)
    else (l, false)

end FifoLock

/-- An operation and the threads that are alive when it is called. -/
structure MutexCall where
  live : Nat → Bool
  op : MutexOp

namespace MutexCall

/-- The calling or cancelled thread. -/
def tid (c : MutexCall) : Nat :=
  match c.op with
  | .lock t => t
  | .unlock t => t
  | .cancel t => t

/-- What the code does on the only mutex of the system. -/
def exec (m : Mutex) (c : MutexCall) : Option (Mutex × Bool) :=
  match c.op with
  | .lock t => some (m.lockMutex c.live t)
  | .unlock t => m.unlockMutex c.live t
  | .cancel t =>
    (cancelWaitOnMutex c.live t (fun _ => m) [0]).map fun r => (r.1 0, r.2 = .EOK)

/-- The calls are about live threads below `N`, the waiters are alive, and a waiting
thread does not lock. -/
structure Fair (N : Nat) (m : Mutex) (c : MutexCall) : Prop where
  tid_lt : c.tid < N
  live : c.live c.tid = true
  waiters : ∀ t ∈ m.waiters, c.live t = true
  once : ∀ t, c.op = .lock t → t ∉ m.waiters

/-- A lock that has to wait finds a free slot in the buffer. -/
def Room (N : Nat) (m : Mutex) (c : MutexCall) : Prop :=
  ∀ t, c.op = .lock t → m.lockerTid ≠ THREAD_TID_INVALID → t ≠ m.lockerTid →
    m.threadIds.inUse + 1 < N

end MutexCall

/-- The owner and the waiters of a mutex. -/
def Mutex.view (m : Mutex) : FifoLock Nat :=
  ⟨if m.lockerTid = THREAD_TID_INVALID then none else some m.lockerTid, m.waiters⟩

/-- The code does to a mutex what the operation does to its owner and waiters. -/
def Commutes (m : Mutex) (c : MutexCall) : Prop :=
  ∃ m' b, c.exec m = some (m', b) ∧ m.view.exec c.op = (m'.view, b)

/-- Runs of calls on one mutex that fulfil a condition. -/
def MutexRuns (ok : Mutex → MutexCall → Prop) : Mutex → Mutex → Prop :=
  PartialRuns (fun m c => (MutexCall.exec m c).map Prod.fst) ok

section Refinement

variable {N : Nat} {m : Mutex} {c : MutexCall}

/-- Owner and waiters are different threads below `N`. -/
structure FifoLock.Distinct (N : Nat) (l : FifoLock Nat) : Prop where
  owner_lt : ∀ t ∈ l.owner, t < N
  waiters_lt : ∀ t ∈ l.waiters, t < N
  nodup : l.waiters.Nodup
  owner : ∀ t ∈ l.owner, t ∉ l.waiters

lemma FifoLock.Distinct.handOver {l : FifoLock Nat} (h : l.Distinct N) :
    l.handOver.Distinct N := by
  obtain ⟨hown, hlt, hnodup, hnot⟩ := h
  cases hcons : l.waiters with
  | nil =>
    constructor <;> simp [FifoLock.handOver, hcons]
  | cons w ws =>
    rw [hcons] at hlt hnodup
    obtain ⟨hw, hws⟩ := List.nodup_cons.mp hnodup
    constructor
    · intro t ht
      obtain rfl : w = t := by simpa [FifoLock.handOver, hcons] using ht
      exact hlt w (by simp)
    · intro t ht
      exact hlt t (by simpa [FifoLock.handOver, hcons] using Or.inr ht)
    · simpa [FifoLock.handOver, hcons] using hws
    · intro t ht
      obtain rfl : w = t := by simpa [FifoLock.handOver, hcons] using ht
      simpa [FifoLock.handOver, hcons] using hw

/-- The operations keep owner and waiters apart if no waiter locks again. -/
lemma FifoLock.Distinct.exec {l : FifoLock Nat} (h : l.Distinct N) {op : MutexOp}
    (hlt : ∀ t, op = .lock t → t < N) (honce : ∀ t, op = .lock t → t ∉ l.waiters) :
    (l.exec op).1.Distinct N := by
  obtain ⟨hown, hwlt, hnodup, hnot⟩ := h
  cases op with
  | lock t =>
    have ht := hlt t rfl
    have htw := honce t rfl
    cases howner : l.owner with
    | none =>
      simp only [FifoLock.exec, howner]
      exact ⟨by simpa using ht, hwlt, hnodup, by simpa using htw⟩
    | some o =>
      simp only [FifoLock.exec, howner]
      by_cases heq : o = t
      · rw [if_pos heq]
        exact ⟨hown, hwlt, hnodup, hnot⟩
      · rw [if_neg heq]
        rw [howner] at hown hnot
        refine ⟨hown, fun w hw => ?_, ?_, fun w hw hmem => ?_⟩
        · rcases List.mem_append.mp hw with hw | hw
          · exact hwlt w hw
          · rwa [List.mem_singleton.mp hw]
        · rw [List.nodup_append]
          exact ⟨hnodup, by simp, fun a ha b hb => by rintro rfl; simp_all⟩
        · rcases List.mem_append.mp hmem with hmem | hmem
          · exact hnot w hw hmem
          · have hwt : w = t := List.mem_singleton.mp hmem
            have how : o = w := by simpa using hw
            exact heq (how.trans hwt)
  | unlock t =>
    simp only [FifoLock.exec]
    split
    · exact FifoLock.Distinct.handOver ⟨hown, hwlt, hnodup, hnot⟩
    · exact ⟨hown, hwlt, hnodup, hnot⟩
  | cancel t =>
    simp only [FifoLock.exec]
    split_ifs
    · exact FifoLock.Distinct.handOver ⟨hown, hwlt, hnodup, hnot⟩
    · exact ⟨hown, fun w hw => hwlt w (List.mem_of_mem_erase hw), hnodup.erase t,
        fun w hw hmem => hnot w hw (List.mem_of_mem_erase hmem)⟩
    · exact ⟨hown, hwlt, hnodup, hnot⟩

/-- A valid mutex whose owner and waiters are different threads. -/
structure Mutex.Sound (N : Nat) (m : Mutex) : Prop where
  valid : m.Valid N
  distinct : m.view.Distinct N

lemma Mutex.view_owner_eq {t : Nat} (ht : t ≠ THREAD_TID_INVALID) :
    m.view.owner = some t ↔ m.lockerTid = t := by
  unfold Mutex.view
  split <;> simp_all
  omega

lemma Mutex.handOver_view {m' : Mutex} (hne : ∀ t ∈ m.waiters, t ≠ THREAD_TID_INVALID)
    (hlock : m'.lockerTid = m.waiters.head?.getD THREAD_TID_INVALID)
    (hwait : m'.waiters = m.waiters.tail) : m.view.handOver = m'.view := by
  unfold FifoLock.handOver Mutex.view
  rw [hlock, hwait]
  cases hcons : m.waiters with
  | nil => simp
  | cons w ws => simp [hne w (by simp [hcons])]

/-- What a fair call with room for a waiter does, and that only a cancellation makes a
hole. -/
lemma MutexCall.exec_spec (hN : N ≤ THREAD_TID_INVALID) (hm : m.Sound N) (hc : c.Fair N m)
    (hroom : c.Room N m) :
    ∃ m' b, c.exec m = some (m', b) ∧ m'.Valid N ∧ m.view.exec c.op = (m'.view, b) ∧
      ((∀ t, c.op ≠ .cancel t) → THREAD_TID_INVALID ∉ m.ids → THREAD_TID_INVALID ∉ m'.ids) := by
  obtain ⟨hvalid, hdist⟩ := hm
  obtain ⟨htid, hlive, hwlive, honce⟩ := hc
  have hwne : ∀ t ∈ m.waiters, t ≠ THREAD_TID_INVALID := by
    intro t ht
    simpa using (List.mem_filter.mp ht).2
  obtain ⟨live, op⟩ := c
  cases op with
  | lock t =>
    have htN : t < N := htid
    have ht : t ≠ THREAD_TID_INVALID := by omega
    have hlt : live t = true := hlive
    by_cases hfree : m.lockerTid = THREAD_TID_INVALID
    · refine ⟨_, _, congrArg some (Mutex.lockMutex_free hlt hfree ht), ⟨hvalid.ring, hvalid.size⟩,
        ?_, fun _ h => h⟩
      simp [FifoLock.exec, Mutex.view, hfree, ht, Mutex.waiters, Mutex.ids]
    · by_cases heq : t = m.lockerTid
      · refine ⟨m, false, ?_, hvalid, ?_, fun _ h => h⟩
        · simp [MutexCall.exec, Mutex.lockMutex, heq]
        · simp [FifoLock.exec, Mutex.view, hfree, heq]
      · obtain ⟨m', hm', hv', hlock, hwait, hids⟩ := Mutex.lockMutex_wait hvalid hlt heq hfree
          (hroom t rfl hfree heq) ht
        refine ⟨m', true, congrArg some hm', hv', ?_, fun _ hhole hmem => ?_⟩
        · simp [FifoLock.exec, Mutex.view, hfree, Ne.symm heq, hlock, hwait]
        · rw [hids, List.mem_append, List.mem_singleton] at hmem
          rcases hmem with hmem | hmem
          · exact hhole hmem
          · exact ht hmem.symm
  | unlock t =>
    have htN : t < N := htid
    have ht : t ≠ THREAD_TID_INVALID := by omega
    by_cases hown : m.lockerTid = t
    · obtain ⟨m', hm', hv', hlock, hwait, hsuffix⟩ :=
        Mutex.unlockMutex_handover hvalid (hown ▸ ht) hwlive
      refine ⟨m', true, ?_, hv', ?_, fun _ hhole hmem => hhole (hsuffix.mem hmem)⟩
      · rw [← hown]
        exact hm'
      · rw [FifoLock.exec, if_pos ((Mutex.view_owner_eq ht).mpr hown),
          Mutex.handOver_view hwne hlock hwait]
    · refine ⟨m, false, if_pos (.inr (Ne.symm hown)), hvalid, ?_, fun _ h => h⟩
      rw [FifoLock.exec, if_neg fun h => hown ((Mutex.view_owner_eq ht).mp h)]
  | cancel t =>
    have htN : t < N := htid
    have ht : t ≠ THREAD_TID_INVALID := by omega
    suffices h : ∃ m' b, (MutexCall.mk live (.cancel t)).exec m = some (m', b) ∧
        m'.Valid N ∧ m.view.exec (.cancel t) = (m'.view, b) by
      obtain ⟨m', b, hexec, hv', hview⟩ := h
      exact ⟨m', b, hexec, hv', hview, fun hno => absurd rfl (hno t)⟩
    by_cases hown : m.lockerTid = t
    · obtain ⟨m', hm', hv', hlock, hwait, hsuffix⟩ :=
        Mutex.unlockMutex_handover hvalid (hown ▸ ht) hwlive
      refine ⟨m', true, ?_, hv', ?_⟩
      · rw [hown] at hm'
        simp [MutexCall.exec, cancelWaitOnMutex, Mutex.cancelWait, hown, hm']
      · rw [FifoLock.exec, if_pos ((Mutex.view_owner_eq ht).mpr hown),
          Mutex.handOver_view hwne hlock hwait]
    · have hnot : m.view.owner ≠ some t := fun h => hown ((Mutex.view_owner_eq ht).mp h)
      by_cases hmem : t ∈ m.waiters
      · obtain ⟨m', hm', hv', hlock, hwait, -⟩ :=
          Mutex.cancelWait_waiter live hvalid hown ht hmem
        refine ⟨m', true, ?_, hv', ?_⟩
        · simp [MutexCall.exec, cancelWaitOnMutex, hm']
        · have hmem' : t ∈ m.view.waiters := hmem
          rw [FifoLock.exec, if_neg hnot, if_pos hmem']
          simp [Mutex.view, hlock, hwait]
      · refine ⟨m, false, ?_, hvalid, ?_⟩
        · have hunknown := Mutex.cancelWait_unknown live hown ht hmem
          simp [MutexCall.exec, cancelWaitOnMutex, hunknown]
        · have hmem' : t ∉ m.view.waiters := hmem
          rw [FifoLock.exec, if_neg hnot, if_neg hmem']

/-- A refused lock is not what the list of waiters does. -/
lemma MutexCall.not_commutes (hm : m.Valid N) {t : Nat} (hop : c.op = .lock t)
    (hheld : m.lockerTid ≠ THREAD_TID_INVALID) (hne : t ≠ m.lockerTid)
    (hfull : ¬m.threadIds.inUse + 1 < N) : ¬Commutes m c := by
  rintro ⟨m', b, hexec, hview⟩
  have hfalse : c.exec m = some (m, false) := by
    rw [MutexCall.exec, hop]
    exact congrArg some (Mutex.lockMutex_full hm hfull hheld)
  obtain ⟨rfl, rfl⟩ : m = m' ∧ false = b := by simpa using hfalse.symm.trans hexec
  rw [hop] at hview
  simp [FifoLock.exec, Mutex.view, hheld, Ne.symm hne] at hview

/-- Fair calls with room keep a mutex sound. -/
lemma Mutex.Sound.step (hN : N ≤ THREAD_TID_INVALID) (hm : m.Sound N) (hc : c.Fair N m)
    (hroom : c.Room N m) {m' : Mutex} (hstep : (c.exec m).map Prod.fst = some m') :
    m'.Sound N ∧
      ((∀ t, c.op ≠ .cancel t) → THREAD_TID_INVALID ∉ m.ids → THREAD_TID_INVALID ∉ m'.ids) := by
  obtain ⟨m₁, b, hexec, hvalid, hview, hholes⟩ := MutexCall.exec_spec hN hm hc hroom
  obtain rfl : m₁ = m' := by simpa [hexec] using hstep
  refine ⟨⟨hvalid, ?_⟩, hholes⟩
  have hlt : ∀ t, c.op = .lock t → t < N := by
    intro t ht
    have hlt := hc.tid_lt
    rwa [MutexCall.tid, ht] at hlt
  have hdist := hm.distinct.exec hlt hc.once
  rwa [hview] at hdist

lemma Mutex.Sound.init (hpos : 0 < N) : (Mutex.init N).Sound N := by
  have hview : (Mutex.init N).view = ⟨none, []⟩ := by
    rw [Mutex.view, Mutex.waiters_init]
    rfl
  refine ⟨Mutex.init_valid hpos, ?_⟩
  rw [hview]
  constructor <;> simp

/-- Without holes a mutex has room for every thread that is neither owner nor waiter. -/
lemma Mutex.Sound.room (hm : m.Sound N) (hholes : THREAD_TID_INVALID ∉ m.ids)
    (hc : c.Fair N m) : c.Room N m := by
  intro t hop hheld hne
  have hwaiters : m.waiters = m.ids :=
    List.filter_eq_self.mpr fun w hw => by
      rw [decide_eq_true_iff]
      rintro rfl
      exact hholes hw
  have hown : m.view.owner = some m.lockerTid := (Mutex.view_owner_eq hheld).mpr rfl
  have ht : t < N := by
    have hlt := hc.tid_lt
    rwa [MutexCall.tid, hop] at hlt
  -- caller, owner and waiters are different threads
  have hnodup : (t :: m.lockerTid :: m.waiters).Nodup := by
    rw [List.nodup_cons, List.nodup_cons]
    refine ⟨?_, hm.distinct.owner _ hown, hm.distinct.nodup⟩
    rw [List.mem_cons, not_or]
    exact ⟨hne, hc.once t hop⟩
  have hsub : (t :: m.lockerTid :: m.waiters).toFinset ⊆ Finset.range N := by
    intro w hw
    rw [List.mem_toFinset, List.mem_cons, List.mem_cons] at hw
    rw [Finset.mem_range]
    rcases hw with rfl | rfl | hw
    · exact ht
    · exact hm.distinct.owner_lt _ hown
    · exact hm.distinct.waiters_lt w hw
  have hcard := Finset.card_le_card hsub
  rw [List.toFinset_card_of_nodup hnodup, Finset.card_range, List.length_cons, List.length_cons,
    hwaiters, Mutex.ids_length] at hcard
  omega

/-- For every run of fair calls that find room when they have to wait: the next fair call
does what the owner and the list of waiters do exactly if it finds room too.  The used
slots are different slots of the buffer, and without cancellations there is always room. -/
theorem mutex_refines_fifo (hpos : 0 < N) (hN : N ≤ THREAD_TID_INVALID) :
    (∀ m, MutexRuns (fun m c => c.Fair N m ∧ c.Room N m) (Mutex.init N) m →
      m.threadIds.positions.Nodup ∧ (∀ i ∈ m.threadIds.positions, i < N) ∧
      ∀ c : MutexCall, c.Fair N m → (Commutes m c ↔ c.Room N m)) ∧
    (∀ m, MutexRuns (fun m c => c.Fair N m ∧ ∀ t, c.op ≠ .cancel t) (Mutex.init N) m →
      ∀ c : MutexCall, c.Fair N m → Commutes m c) := by
  have hcommutes : ∀ m (c : MutexCall), m.Sound N → c.Fair N m → c.Room N m → Commutes m c := by
    intro m c hm hc hroom
    obtain ⟨m', b, hexec, -, hview, -⟩ := MutexCall.exec_spec hN hm hc hroom
    exact ⟨m', b, hexec, hview⟩
  constructor
  · intro m hrun
    have hm : m.Sound N := PartialRuns.invariant (P := fun m => m.Sound N)
      (fun m c m' hm hok hstep => (hm.step hN hok.1 hok.2 hstep).1) hrun (.init hpos)
    have hlt : ∀ i ∈ m.threadIds.positions, i < N := by
      intro i hi
      obtain ⟨k, -, rfl⟩ := List.mem_map.mp hi
      have hsize := hm.valid.size
      rw [← hsize]
      exact Nat.mod_lt _ (by omega)
    refine ⟨Ring.positions_nodup hm.valid.ring, hlt, fun c hc => ⟨fun hcomm => ?_, ?_⟩⟩
    · intro t hop hheld hne
      by_contra hfull
      exact MutexCall.not_commutes hm.valid hop hheld hne hfull hcomm
    · exact hcommutes m c hm hc
  · intro m hrun c hc
    have hinv : m.Sound N ∧ THREAD_TID_INVALID ∉ m.ids :=
      PartialRuns.invariant (P := fun m => m.Sound N ∧ THREAD_TID_INVALID ∉ m.ids)
        (fun m c m' hm hok hstep => by
          obtain ⟨hsound, hholes⟩ := hm.1.step hN hok.1 (hm.1.room hm.2 hok.1) hstep
          exact ⟨hsound, hholes hok.2 hm.2⟩)
        hrun ⟨.init hpos, by rw [Mutex.ids_init]; simp⟩
    exact hcommutes m c hinv.1 hc (hinv.1.room hinv.2 hc)

end Refinement

/-- Calls in a system where the threads below `N` live. -/
def callBelow (N : Nat) (op : MutexOp) : MutexCall := ⟨fun t => t < N, op⟩

/-- Thread 3 waits behind thread 2 and gets the mutex. -/
theorem mutex_refines_fifo_two :
    ∃ m, MutexRuns (fun m c => c.Fair 20 m ∧ c.Room 20 m) (Mutex.init 20) m ∧
      m.view = ⟨some 2, [3]⟩ ∧ Commutes m (callBelow 20 (.unlock 2)) := by
  have hfair : ∀ m op, m.view.waiters = [] → (callBelow 20 op).tid < 20 →
      (callBelow 20 op).Fair 20 m := by
    intro m op hnil hlt
    have hnil' : m.waiters = [] := hnil
    exact ⟨hlt, by simpa [callBelow] using hlt, by simp [hnil'], by simp [hnil']⟩
  have hrun : MutexRuns (fun m c => c.Fair 20 m ∧ c.Room 20 m) (Mutex.init 20)
      (((Mutex.init 20).lockMutex (fun t => t < 20) 2).1.lockMutex (fun t => t < 20) 3).1 :=
    ((PartialRuns.refl _).tail ⟨hfair _ _ (by decide) (by decide), fun _ _ _ _ => by decide⟩
      (i := callBelow 20 (.lock 2)) rfl).tail
      ⟨hfair _ _ (by decide) (by decide), fun _ _ _ _ => by decide⟩
      (i := callBelow 20 (.lock 3)) rfl
  refine ⟨_, hrun, by decide, ?_⟩
  refine ((mutex_refines_fifo (by decide) (by decide)).1 _ hrun).2.2 _ ?_ |>.mpr ?_
  · exact ⟨by decide, by decide, by decide, by simp [callBelow]⟩
  · simp [MutexCall.Room, callBelow]

instance (N : Nat) (m : Mutex) (c : MutexCall) : Decidable (c.Fair N m) :=
  decidable_of_iff (c.tid < N ∧ c.live c.tid = true ∧ (∀ t ∈ m.waiters, c.live t = true) ∧
      (c.op = .lock c.tid → c.tid ∉ m.waiters))
    ⟨fun h => ⟨h.1, h.2.1, h.2.2.1, fun t ht => by
        have htid : c.tid = t := by rw [MutexCall.tid, ht]
        exact htid ▸ h.2.2.2 (htid ▸ ht)⟩,
      fun h => ⟨h.tid_lt, h.live, h.waiters, h.once _⟩⟩

/-- The mutex after a list of calls, as long as they are fair. -/
def runFair (N : Nat) (l : List MutexCall) (m : Mutex) : Option Mutex :=
  checkedRun (fun m c => (MutexCall.exec m c).map Prod.fst) (fun m c => c.Fair N m) l m

/-- Thread 3 waits for thread 2 and is cancelled, nineteen times. -/
def nineteenHoles : List MutexCall :=
  callBelow 20 (.lock 2) ::
    (List.replicate 19 [callBelow 20 (.lock 3), callBelow 20 (.cancel 3)]).flatten

/-- Nineteen cancelled waiters fill the buffer: the next lock is refused though nobody
waits. -/
theorem mutex_full_of_holes :
    ∃ m, MutexRuns (fun m c => c.Fair 20 m) (Mutex.init 20) m ∧ m.view = ⟨some 2, []⟩ ∧
      (callBelow 20 (.lock 3)).Fair 20 m ∧ (m.lockMutex (fun t => t < 20) 3).2 = false ∧
      ¬Commutes m (callBelow 20 (.lock 3)) := by
  obtain ⟨m, hm, hview, hfair, hrefused⟩ : ∃ m ∈ runFair 20 nineteenHoles (Mutex.init 20),
      m.view = ⟨some 2, []⟩ ∧ (callBelow 20 (.lock 3)).Fair 20 m ∧
      (m.lockMutex (fun t => t < 20) 3).2 = false := by decide +kernel
  refine ⟨m, PartialRuns.of_checkedRun _ (PartialRuns.refl _) hm, hview, hfair, hrefused, ?_⟩
  rintro ⟨m', b, hexec, habs⟩
  have hb : b = false := by
    have heq : m.lockMutex (fun t => t < 20) 3 = (m', b) := by
      simpa [MutexCall.exec, callBelow] using hexec
    rw [heq] at hrefused
    exact hrefused
  rw [hview, hb] at habs
  simp [FifoLock.exec, callBelow] at habs

end DiegOS.Kernel
