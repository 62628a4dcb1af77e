import DiegOS.Kernel.IoWaits

/-!
# Cancelled I/O waits

`cancel_io_waits` knows the items of a thread by one byte.  In an item of a poll table
this byte is the lowest one of the address of the table, and in every queue the walk ends
with the first item that seems to be the thread's.

Main results:

- Theorem `System.cancelItems_eq`: what the walks take out of the queues.
- Theorem `cancels_own_iff`: these are the items of the thread exactly if the byte tells
  them apart and the thread has no second one in a queue.
-/

namespace DiegOS.Kernel

open Lib Function

variable {N : Nat}

namespace System

/-- The item is a plain wait of the thread, or is in a poll table of the thread. -/
def belongs (k : System N) (tid a : Nat) : Bool :=
  match k.item a with
  | none => false
  | some (.owner t) => t == tid
  | some (.poll table) => (k.pollTable table).tid == tid

/-- The byte of the item is the id of the thread. -/
def reads (k : System N) (tid a : Nat) : Bool := (k.item a).map WaitItem.tid = some tid

/-- The items of a queue that seem to be the thread's. -/
def seen (k : System N) (w tid : Nat) : List Nat := (k.waitQueue w).filter (k.reads tid)

/-- As many of them as the queue is registered times, from the front. -/
def taken (k : System N) (w tid : Nat) : List Nat :=
  (k.seen w tid).take (k.waitQueues.count w)

/-- No item is twice in the queues. -/
structure Linked (k : System N) (ws : List Nat) : Prop where
  nodup : ∀ w ∈ ws, (k.waitQueue w).Nodup
  disjoint : ∀ w ∈ ws, ∀ w' ∈ ws, w ≠ w' → (k.waitQueue w).Disjoint (k.waitQueue w')

/-- The items of the thread, and no others, have left the registered queues and are free. -/
structure CancelsOwn (k k' : System N) (tid : Nat) : Prop where
  queues : ∀ w ∈ k.waitQueues, k'.waitQueue w = (k.waitQueue w).filter fun a => !k.belongs tid a
  others : ∀ w ∉ k.waitQueues, k'.waitQueue w = k.waitQueue w
  items : ∀ a, k'.item a =
    if (∃ w ∈ k.waitQueues, a ∈ k.waitQueue w) ∧ k.belongs tid a = true then none else k.item a

/-- The items of the thread have its id as their byte, the first ones with this byte are its
own, and it has no more in a queue than the queue is registered times. -/
structure Recognised (k : System N) (tid : Nat) : Prop where
  addresses : ∀ w ∈ k.waitQueues, ∀ a ∈ k.waitQueue w, k.belongs tid a = true →
    k.reads tid a = true
  ours : ∀ w ∈ k.waitQueues, ∀ a ∈ k.taken w tid, k.belongs tid a = true
  few : ∀ w ∈ k.waitQueues,
    ((k.waitQueue w).filter (k.belongs tid)).length ≤ k.waitQueues.count w

/-! ## One item -/

variable {k k' : System N} {tid w a : Nat} {ws l : List Nat}

lemma findItem_eq (k : System N) (w tid : Nat) :
    k.findItem w tid = (k.seen w tid).head? := by
  unfold findItem seen
  rw [List.head?_filter]
  rfl

lemma mem_of_mem_seen (h : a ∈ k.seen w tid) : a ∈ k.waitQueue w := (List.mem_filter.mp h).1

lemma removeItem_waitQueue_self : (k.removeItem w a).waitQueue w = (k.waitQueue w).erase a :=
  update_self ..

lemma removeItem_waitQueue_of_ne {w' : Nat} (h : w' ≠ w) :
    (k.removeItem w a).waitQueue w' = k.waitQueue w' := update_of_ne h _ _

lemma removeItem_reads_of_ne {b : Nat} (h : b ≠ a) :
    (k.removeItem w a).reads tid b = k.reads tid b := by
  have hitem : (k.removeItem w a).item b = k.item b := update_of_ne h _ _
  simp only [reads, hitem]

/-- The other items that seem to be the thread's are still there. -/
lemma removeItem_seen_self (hnodup : (k.waitQueue w).Nodup) (hseen : k.seen w tid = a :: l) :
    (k.removeItem w a).seen w tid = l := by
  have hkeep : ((k.waitQueue w).erase a).filter ((k.removeItem w a).reads tid) =
      ((k.waitQueue w).erase a).filter (k.reads tid) := by
    apply List.filter_congr
    intro b hb
    apply removeItem_reads_of_ne
    rintro rfl
    exact hnodup.not_mem_erase hb
  unfold seen at hseen ⊢
  rw [removeItem_waitQueue_self, hkeep, ← List.erase_filter, hseen, List.erase_cons_head]

/-- Another queue does not hold the item. -/
lemma removeItem_seen_of_ne {w' : Nat} (hw : w' ≠ w) (ha : a ∉ k.waitQueue w') :
    (k.removeItem w a).seen w' tid = k.seen w' tid := by
  unfold seen
  rw [removeItem_waitQueue_of_ne hw]
  apply List.filter_congr
  intro b hb
  apply removeItem_reads_of_ne
  rintro rfl
  exact ha hb

lemma Linked.removeItem (h : k.Linked ws) : (k.removeItem w a).Linked ws := by
  have hsub : ∀ w', (k.removeItem w a).waitQueue w' ⊆ k.waitQueue w' := by
    intro w' b hb
    by_cases hw : w' = w
    · subst hw
      rw [removeItem_waitQueue_self] at hb
      exact List.mem_of_mem_erase hb
    · rwa [removeItem_waitQueue_of_ne hw] at hb
  constructor
  · intro w' hw'
    by_cases hw : w' = w
    · subst hw
      rw [removeItem_waitQueue_self]
      exact (h.nodup w' hw').erase a
    · rw [removeItem_waitQueue_of_ne hw]
      exact h.nodup w' hw'
  · intro w₁ hw₁ w₂ hw₂ hne b hb₁ hb₂
    exact h.disjoint w₁ hw₁ w₂ hw₂ hne (hsub w₁ hb₁) (hsub w₂ hb₂)

lemma linked_singleton (hlist : k.waitQueues = [w]) (hnodup : (k.waitQueue w).Nodup) :
    k.Linked k.waitQueues := by
  rw [hlist]
  constructor
  · intro w₁ hw₁
    obtain rfl := List.mem_singleton.mp hw₁
    exact hnodup
  · intro w₁ hw₁ w₂ hw₂ hne
    obtain rfl := List.mem_singleton.mp hw₁
    exact absurd (List.mem_singleton.mp hw₂).symm hne

/-! ## All walks -/

/-- Each walk takes one more of the items that seem to be the thread's. -/
theorem cancelItems_eq (l : List Nat) : ∀ k : System N, k.Linked ws → l ⊆ ws →
    (∀ w, (cancelItems tid l k).waitQueue w =
      (k.waitQueue w).filter fun a => !decide (a ∈ (k.seen w tid).take (l.count w))) ∧
    ∀ a, (cancelItems tid l k).item a =
      if ∃ w ∈ l, a ∈ (k.seen w tid).take (l.count w) then none else k.item a := by
  induction l with
  | nil =>
    intro k hlinked hsub
    simp [cancelItems]
  | cons w₀ l ih =>
    intro k hlinked hsub
    have hw₀ : w₀ ∈ ws := hsub (by simp)
    have hsub' : l ⊆ ws := fun w hw => hsub (.tail _ hw)
    rw [cancelItems, findItem_eq]
    cases hseen : k.seen w₀ tid with
    | nil =>
      dsimp only [List.head?_nil]
      have hsame : ∀ w, (k.seen w tid).take ((w₀ :: l).count w) =
          (k.seen w tid).take (l.count w) := by
        intro w
        by_cases hw : w₀ = w
        · subst hw
          simp [hseen]
        · rw [List.count_cons_of_ne hw]
      obtain ⟨hqueues, hitems⟩ := ih k hlinked hsub'
      refine ⟨fun w => by rw [hqueues, hsame], fun a => ?_⟩
      rw [hitems]
      simp [hsame, hseen]
    | cons a₀ rest =>
      dsimp only [List.head?_cons]
      have hmem : a₀ ∈ k.seen w₀ tid := by simp [hseen]
      have ha₀ : a₀ ∈ k.waitQueue w₀ := mem_of_mem_seen hmem
      have hnodup := hlinked.nodup w₀ hw₀
      obtain ⟨hqueues, hitems⟩ := ih (k.removeItem w₀ a₀) hlinked.removeItem hsub'
      have hself := removeItem_seen_self hnodup hseen
      have hother : ∀ w, w ≠ w₀ →
          ((k.removeItem w₀ a₀).seen w tid).take (l.count w) =
            (k.seen w tid).take ((w₀ :: l).count w) := by
        intro w hw
        rw [List.count_cons_of_ne (Ne.symm hw)]
        by_cases hlisted : w ∈ ws
        · rw [removeItem_seen_of_ne hw (hlinked.disjoint w₀ hw₀ w hlisted (Ne.symm hw) ha₀)]
        · rw [List.count_eq_zero_of_not_mem fun hmem => hlisted (hsub' hmem)]
          simp
      constructor
      · intro w
        rw [hqueues]
        by_cases hw : w = w₀
        · subst hw
          rw [hself, hseen, List.count_cons_self, List.take_succ_cons,
            removeItem_waitQueue_self, hnodup.erase_eq_filter, List.filter_filter]
          apply List.filter_congr
          intro b _
          by_cases hb : b = a₀ <;> simp [hb]
        · rw [hother w hw, removeItem_waitQueue_of_ne hw]
      · intro a
        rw [hitems]
        by_cases ha : a = a₀
        · subst ha
          have hgone : (k.removeItem w₀ a).item a = none := update_self ..
          have htaken : a ∈ (k.seen w₀ tid).take ((w₀ :: l).count w₀) := by simp [hseen]
          rw [hgone, ite_self]
          exact (if_pos ⟨w₀, .head _, htaken⟩).symm
        · have hkept : (k.removeItem w₀ a₀).item a = k.item a := update_of_ne ha _ _
          have hstep : ∀ w, a ∈ ((k.removeItem w₀ a₀).seen w tid).take (l.count w) ↔
              a ∈ (k.seen w tid).take ((w₀ :: l).count w) := by
            intro w
            by_cases hw : w = w₀
            · subst hw
              simp [hself, hseen, ha]
            · rw [hother w hw]
          have hiff : (∃ w ∈ l, a ∈ ((k.removeItem w₀ a₀).seen w tid).take (l.count w)) ↔
              ∃ w ∈ w₀ :: l, a ∈ (k.seen w tid).take ((w₀ :: l).count w) := by
            constructor
            · rintro ⟨w, hw, hmem⟩
              exact ⟨w, .tail _ hw, (hstep w).mp hmem⟩
            · rintro ⟨w, -, hmem⟩
              have hmem' := (hstep w).mpr hmem
              refine ⟨w, ?_, hmem'⟩
              by_contra hnot
              rw [List.count_eq_zero_of_not_mem hnot] at hmem'
              simp at hmem'
          rw [hkept]
          exact if_congr hiff rfl rfl

/-- What `cancel_io_waits` takes out of the registered queues. -/
lemma cancelIoWaits_eq (hlinked : k.Linked k.waitQueues) (tid : Nat) :
    (∀ w, (k.cancelIoWaits tid).waitQueue w =
      (k.waitQueue w).filter fun a => !decide (a ∈ k.taken w tid)) ∧
    ∀ a, (k.cancelIoWaits tid).item a =
      if ∃ w ∈ k.waitQueues, a ∈ k.taken w tid then none else k.item a :=
  cancelItems_eq k.waitQueues k hlinked (List.Subset.refl _)

lemma mem_of_mem_taken (h : a ∈ k.taken w tid) : a ∈ k.waitQueue w :=
  mem_of_mem_seen (List.mem_of_mem_take h)

/-- The items taken are those of the thread. -/
lemma recognised_iff (hlinked : k.Linked k.waitQueues) : k.Recognised tid ↔
    ∀ w ∈ k.waitQueues, ∀ a ∈ k.waitQueue w, a ∈ k.taken w tid ↔ k.belongs tid a = true := by
  constructor
  · intro h w hw a ha
    refine ⟨h.ours w hw a, fun hown => ?_⟩
    by_contra hnot
    have hseen : a ∈ k.seen w tid := List.mem_filter.mpr ⟨ha, h.addresses w hw a ha hown⟩
    -- all of the first ones are taken, and this one would be one more
    have hlength : (k.taken w tid).length = k.waitQueues.count w := by
      rw [taken, List.length_take]
      apply Nat.min_eq_left
      by_contra hlt
      rw [taken, List.take_of_length_le (by omega)] at hnot
      exact hnot hseen
    have hnodup : (a :: k.taken w tid).Nodup := by
      refine List.nodup_cons.mpr ⟨hnot, ?_⟩
      exact ((hlinked.nodup w hw).filter _).sublist (List.take_sublist _ _)
    have hsub : a :: k.taken w tid ⊆ (k.waitQueue w).filter (k.belongs tid) := by
      intro b hb
      rcases List.mem_cons.mp hb with rfl | hb
      · exact List.mem_filter.mpr ⟨ha, hown⟩
      · exact List.mem_filter.mpr ⟨mem_of_mem_taken hb, h.ours w hw b hb⟩
    have hle := (hnodup.subperm hsub).length_le
    have hfew := h.few w hw
    rw [List.length_cons] at hle
    omega
  · intro h
    constructor
    · intro w hw a ha hown
      have hmem := List.mem_of_mem_take ((h w hw a ha).mpr hown)
      exact (List.mem_filter.mp hmem).2
    · exact fun w hw a ha => (h w hw a (mem_of_mem_taken ha)).mp ha
    · intro w hw
      have hsub : (k.waitQueue w).filter (k.belongs tid) ⊆ k.taken w tid := by
        intro a ha
        obtain ⟨hin, hown⟩ := List.mem_filter.mp ha
        exact (h w hw a hin).mpr hown
      have hle := (((hlinked.nodup w hw).filter _).subperm hsub).length_le
      exact Nat.le_trans hle (List.length_take_le _ _)

end System

/-- `cancel_io_waits` takes the items of the thread and no others out of the registered
queues exactly if it can recognise them. -/
theorem cancels_own_iff {k : System N} (hlinked : k.Linked k.waitQueues) (tid : Nat) :
    k.CancelsOwn (k.cancelIoWaits tid) tid ↔ k.Recognised tid := by
  obtain ⟨hqueues, hitems⟩ := System.cancelIoWaits_eq hlinked tid
  rw [System.recognised_iff hlinked]
  constructor
  · intro h w hw a ha
    have heq := h.queues w hw
    rw [hqueues] at heq
    have hiff : a ∈ (k.waitQueue w).filter (fun b => !decide (b ∈ k.taken w tid)) ↔
        a ∈ (k.waitQueue w).filter fun b => !k.belongs tid b := by rw [heq]
    simp only [List.mem_filter, ha, true_and, Bool.not_eq_true',
      ← Bool.not_eq_true] at hiff
    simpa using not_iff_not.mp hiff
  · intro h
    constructor
    · intro w hw
      rw [hqueues]
      apply List.filter_congr
      intro a ha
      have hiff := h w hw a ha
      cases hown : k.belongs tid a <;> simp [hown] at hiff <;> simp [hiff]
    · intro w hw
      have hnone : k.taken w tid = [] := by
        rw [System.taken, List.count_eq_zero_of_not_mem hw, List.take_zero]
      rw [hqueues, hnone]
      simp
    · intro a
      rw [hitems]
      apply if_congr _ rfl rfl
      constructor
      · rintro ⟨w, hw, htaken⟩
        have hin := System.mem_of_mem_taken htaken
        exact ⟨⟨w, hw, hin⟩, (h w hw a hin).mp htaken⟩
      · rintro ⟨⟨w, hw, hin⟩, hown⟩
        exact ⟨w, hw, (h w hw a hin).mpr hown⟩

/-- Thread 2 polls a queue with a table at the given address, thread 3 waits for a barrier and
thread 4 for the same queue; thread 5 runs. -/
def pollsAndWaits (table : Nat) : List Action :=
  [.threadCreate [65] 1, .threadCreate [66] 1, .threadCreate [67] 1, .threadCreate [68] 1,
    .kernelRun, .barrierCreate 5 true, .waitForBarrier 5, .ioWaitInit 8,
    .poll table [some ⟨[(100, 8)], some false⟩] (-1) [], .waitForBarrier 5, .ioWait 8 101 0]

theorem cancels_own_recognised : ∃ k₀ k : System 6, boot 6 = some k₀ ∧
    PartialRuns System.exec System.Allowed k₀ k ∧ k.Recognised 4 ∧
    k.CancelsOwn (k.cancelIoWaits 4) 4 := by
  obtain ⟨k₀, k, hboot, hrun, hlist, hqueue, hpoll, howner, htid⟩ := exists_run (N := 6)
    System.Allowed (pollsAndWaits 256)
    (P := fun k => k.waitQueues = [8] ∧ k.waitQueue 8 = [100, 101] ∧
      k.item 100 = some (.poll 256) ∧ k.item 101 = some (.owner 4) ∧
      (k.pollTable 256).tid = 2) (by decide)
  have hlinked := System.linked_singleton hlist (by simp [hqueue])
  have hbelongs : (k.waitQueue 8).filter (k.belongs 4) = [101] := by
    simp [hqueue, System.belongs, hpoll, howner, htid]
  have hseen : k.seen 8 4 = [101] := by
    simp [System.seen, hqueue, System.reads, hpoll, howner, WaitItem.tid]
  have hrecognised : k.Recognised 4 := by
    constructor
    · simp [hlist, hqueue, System.belongs, System.reads, hpoll, howner, htid, WaitItem.tid]
    · simp [hlist, System.taken, hseen, System.belongs, howner]
    · simp [hlist, hbelongs]
  exact ⟨k₀, k, hboot, hrun, hrecognised, (cancels_own_iff hlinked 4).mpr hrecognised⟩

/-- Thread 4 is about to be killed: its own item stays, and the item of thread 2, whose poll
table lies at an address that ends with the byte 4, is taken. -/
theorem cancels_others : ∃ k₀ k : System 6, boot 6 = some k₀ ∧
    PartialRuns System.exec System.Allowed k₀ k ∧ k.Allowed (.threadKill 4) ∧
    (k.sched.storage 4).wait = .COMPLETION ∧ k.Linked k.waitQueues ∧
    ¬k.CancelsOwn (k.cancelIoWaits 4) 4 := by
  obtain ⟨k₀, k, hboot, hrun, hallowed, hwait, hlist, hqueue, hpoll, howner, htid, hleft⟩ :=
    exists_run (N := 6) System.Allowed (pollsAndWaits 260)
    (P := fun k => k.Allowed (.threadKill 4) ∧ (k.sched.storage 4).wait = .COMPLETION ∧
      k.waitQueues = [8] ∧ k.waitQueue 8 = [100, 101] ∧ k.item 100 = some (.poll 260) ∧
      k.item 101 = some (.owner 4) ∧ (k.pollTable 260).tid = 2 ∧
      (k.cancelIoWaits 4).waitQueue 8 = [101]) (by decide)
  have hlinked := System.linked_singleton hlist (by simp [hqueue])
  refine ⟨k₀, k, hboot, hrun, hallowed, hwait, hlinked, fun h => ?_⟩
  have hqueues := h.queues 8 (by simp [hlist])
  simp [hleft, hqueue, System.belongs, hpoll, howner, htid] at hqueues

end DiegOS.Kernel
