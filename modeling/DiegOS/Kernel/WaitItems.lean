import DiegOS.Kernel.IoCancels

/-!
# Items in the wait queues

The items of I/O waits and polls are put into the wait queues by `thread_io_wait` and
`poll_wait`, and are taken out by `thread_io_resume`, by `cancel_io_waits` and at
the end of a `poll`.  As long as every call takes out its own items, an item is in one
queue at most, and the others stay where they are.

Main results:

- Theorem `System.cancelIoWaits_stays`: what a kill leaves in the queues.
- Theorem `System.resumeItems_roused`: what a resume does to the items of a queue.
- Theorem `System.cleanupItems_stays`: the end of a poll leaves other items alone.
- Theorem `System.pollFirst_polled`: the items that the drivers add to a new table.
- Theorem `Effect.stocked`: every call leaves the queues in order.
-/

namespace DiegOS.Kernel

open Lib Function

variable {N : Nat}

/-! ## Items that stay -/

namespace System

/-- The items of this kind stay in their queues. -/
def Stays (i : WaitItem) (k k' : System N) : Prop :=
  ∀ w, ∀ a ∈ k.waitQueue w, k.item a = some i → a ∈ k'.waitQueue w ∧ k'.item a = some i

/-- Every item in a queue is in use, and is there once and nowhere else. -/
structure Stocked (k : System N) : Prop where
  nodup : ∀ w, (k.waitQueue w).Nodup
  used : ∀ w, ∀ a ∈ k.waitQueue w, k.item a ≠ none
  apart : ∀ w w', ∀ a ∈ k.waitQueue w, a ∈ k.waitQueue w' → w = w'

variable {k k' k'' : System N} {i j : WaitItem} {w a t table : Nat}

lemma Stays.of_eq (hqueue : k'.waitQueue = k.waitQueue) (hitem : k'.item = k.item) :
    Stays i k k' := by
  intro w a ha heq
  rw [hqueue, hitem]
  exact ⟨ha, heq⟩

lemma Stays.trans (h : Stays i k k') (h' : Stays i k' k'') : Stays i k k'' := by
  intro w a ha heq
  obtain ⟨ha', heq'⟩ := h w a ha heq
  exact h' w a ha' heq'

lemma Stocked.congr (h : k.Stocked) (hqueue : k'.waitQueue = k.waitQueue)
    (hitem : k'.item = k.item) : k'.Stocked := by
  refine ⟨?_, ?_, ?_⟩
  · rw [hqueue]
    exact h.nodup
  · rw [hqueue, hitem]
    exact h.used
  · rw [hqueue]
    exact h.apart

lemma Stocked.linked (h : k.Stocked) (ws : List Nat) : k.Linked ws :=
  ⟨fun w _ => h.nodup w, fun w _ w' _ hne a ha ha' => hne (h.apart w w' a ha ha')⟩

/-- A free item is in no queue. -/
lemma Stocked.not_mem (h : k.Stocked) (hfree : k.item a = none) (w : Nat) :
    a ∉ k.waitQueue w := fun ha => h.used w a ha hfree

lemma mem_addItem {b w' : Nat} : b ∈ (k.addItem w a i).waitQueue w' ↔
    b ∈ k.waitQueue w' ∨ w' = w ∧ b = a := by
  by_cases hw : w' = w
  · subst hw
    rw [show (k.addItem w' a i).waitQueue w' = k.waitQueue w' ++ [a] from update_self ..]
    simp
  · rw [show (k.addItem w a i).waitQueue w' = k.waitQueue w' from update_of_ne hw _ _]
    simp [hw]

lemma addItem_item_of_ne {b : Nat} (hb : b ≠ a) : (k.addItem w a i).item b = k.item b :=
  update_of_ne hb _ _

lemma Stocked.addItem (h : k.Stocked) (hfree : k.item a = none) : (k.addItem w a i).Stocked := by
  have hnot := h.not_mem hfree
  constructor
  · intro w'
    by_cases hw : w' = w
    · subst hw
      rw [show (k.addItem w' a i).waitQueue w' = k.waitQueue w' ++ [a] from
        update_self ..]
      exact List.nodup_append.mpr ⟨h.nodup w', List.nodup_singleton a, by
        simpa using fun b hb (hba : b = a) => hnot w' (hba ▸ hb)⟩
    · rw [show (k.addItem w a i).waitQueue w' = k.waitQueue w' from update_of_ne hw _ _]
      exact h.nodup w'
  · intro w' b hb
    by_cases hba : b = a
    · subst hba
      simp [System.addItem]
    · rw [addItem_item_of_ne hba]
      rcases mem_addItem.mp hb with hb | ⟨-, hb⟩
      · exact h.used w' b hb
      · exact absurd hb hba
  · intro w₁ w₂ b hb₁ hb₂
    rcases mem_addItem.mp hb₁ with hold₁ | ⟨hw₁, hba⟩
    · rcases mem_addItem.mp hb₂ with hold₂ | ⟨-, hba⟩
      · exact h.apart w₁ w₂ b hold₁ hold₂
      · exact absurd (hba ▸ hold₁) (hnot w₁)
    · rcases mem_addItem.mp hb₂ with hold₂ | ⟨hw₂, -⟩
      · exact absurd (hba ▸ hold₂) (hnot w₂)
      · exact hw₁.trans hw₂.symm

lemma Stays.addItem (hfree : k.item a = none) : Stays j k (k.addItem w a i) := by
  intro w' b hb hitem
  refine ⟨mem_addItem.mpr (.inl hb), ?_⟩
  rw [addItem_item_of_ne, hitem]
  rintro rfl
  rw [hfree] at hitem
  contradiction

lemma removeItem_item_of_ne {b : Nat} (hb : b ≠ a) : (k.removeItem w a).item b = k.item b :=
  update_of_ne hb _ _

lemma mem_of_mem_removeItem {b w' : Nat} (hb : b ∈ (k.removeItem w a).waitQueue w') :
    b ∈ k.waitQueue w' := by
  by_cases hw : w' = w
  · subst hw
    rw [removeItem_waitQueue_self] at hb
    exact List.mem_of_mem_erase hb
  · rwa [removeItem_waitQueue_of_ne hw] at hb

/-- An item that was taken out is in no queue. -/
lemma Stocked.not_mem_removeItem (h : k.Stocked) (ha : a ∈ k.waitQueue w) (w' : Nat) :
    a ∉ (k.removeItem w a).waitQueue w' := by
  intro hin
  by_cases hw : w' = w
  · subst hw
    rw [removeItem_waitQueue_self] at hin
    exact (h.nodup w').not_mem_erase hin
  · exact hw (h.apart w' w a (mem_of_mem_removeItem hin) ha)

lemma Stocked.removeItem (h : k.Stocked) (ha : a ∈ k.waitQueue w) :
    (k.removeItem w a).Stocked := by
  constructor
  · intro w'
    by_cases hw : w' = w
    · subst hw
      rw [removeItem_waitQueue_self]
      exact (h.nodup w').erase a
    · rw [removeItem_waitQueue_of_ne hw]
      exact h.nodup w'
  · intro w' b hb
    have hba : b ≠ a := by
      rintro rfl
      exact h.not_mem_removeItem ha w' hb
    rw [removeItem_item_of_ne hba]
    exact h.used w' b (mem_of_mem_removeItem hb)
  · exact fun w₁ w₂ b hb₁ hb₂ =>
      h.apart w₁ w₂ b (mem_of_mem_removeItem hb₁) (mem_of_mem_removeItem hb₂)

lemma Stays.removeItem (hother : k.item a ≠ some i) : Stays i k (k.removeItem w a) := by
  intro w' b hb hitem
  have hba : b ≠ a := by
    rintro rfl
    exact hother hitem
  refine ⟨?_, (removeItem_item_of_ne hba).trans hitem⟩
  by_cases hw : w' = w
  · subst hw
    rw [removeItem_waitQueue_self]
    exact (List.mem_erase_of_ne hba).mpr hb
  · rw [removeItem_waitQueue_of_ne hw]
    exact hb

lemma mem_cancelIoWaits (h : k.Stocked) {tid : Nat} :
    a ∈ (k.cancelIoWaits tid).waitQueue w ↔ a ∈ k.waitQueue w ∧ a ∉ k.taken w tid := by
  rw [(cancelIoWaits_eq (h.linked _) tid).1]
  simp

/-- A kill frees the items that it takes out. -/
lemma cancelIoWaits_stocked (h : k.Stocked) (tid : Nat) : (k.cancelIoWaits tid).Stocked := by
  obtain ⟨hqueue, hitem⟩ := cancelIoWaits_eq (h.linked _) tid
  constructor
  · intro w
    rw [hqueue]
    exact (h.nodup w).filter _
  · intro w b hb
    obtain ⟨hin, hnot⟩ := (mem_cancelIoWaits h).mp hb
    rw [hitem, if_neg]
    · exact h.used w b hin
    · rintro ⟨w', -, htaken⟩
      obtain rfl := h.apart w w' b hin (mem_of_mem_taken htaken)
      exact hnot htaken
  · exact fun w w' b hb hb' =>
      h.apart w w' b ((mem_cancelIoWaits h).mp hb).1 ((mem_cancelIoWaits h).mp hb').1

/-- A kill that takes only items of the killed thread leaves the others alone. -/
theorem cancelIoWaits_stays (h : k.Stocked) {tid : Nat}
    (hours : ∀ w ∈ k.waitQueues, ∀ a ∈ k.taken w tid, k.belongs tid a = true)
    (hother : ∀ a, k.item a = some i → k.belongs tid a = false) :
    Stays i k (k.cancelIoWaits tid) := by
  intro w b hb heq
  have hnot : ∀ w' ∈ k.waitQueues, b ∉ k.taken w' tid := by
    intro w' hw' htaken
    have hown := hours w' hw' b htaken
    rw [hother b heq] at hown
    contradiction
  constructor
  · refine (mem_cancelIoWaits h).mpr ⟨hb, ?_⟩
    by_cases hw : w ∈ k.waitQueues
    · exact hnot w hw
    · rw [taken, List.count_eq_zero_of_not_mem hw]
      simp
  · rw [(cancelIoWaits_eq (h.linked _) tid).2, if_neg, heq]
    rintro ⟨w', hw', htaken⟩
    exact hnot w' hw' htaken

/-! ## Resumed queues -/

/-- What `thread_io_resume` does for the items of a list. -/
structure Roused (l : List Nat) (k k' : System N) : Prop where
  stocked : k'.Stocked
  stays : ∀ i, (∀ a ∈ l, k.item a ≠ some i) → Stays i k k'
  owners : ∀ t, (k.ioIds t = true ∨ ∃ a ∈ l, k.item a = some (.owner t)) → k'.ioIds t = true
  marks : ∀ t, k.pollIds t = true → k'.pollIds t = true
  tables : ∀ table, (k'.pollTable table).tid = (k.pollTable table).tid ∧
    (k'.pollTable table).items = (k.pollTable table).items ∧
    ((k'.pollTable table).signalled = (k.pollTable table).signalled ∨
      k'.pollIds (k.pollTable table).tid = true)
  polls : ∀ table, ∀ a ∈ l, k.item a = some (.poll table) →
    (k.pollTable table).signalled = false → k'.pollIds (k.pollTable table).tid = true

/-- `poll_wakeup` marks the thread of a table that was not signalled yet. -/
lemma pollWakeup_cases (k : System N) (table : Nat) :
    (k.pollTable table).signalled = true ∧ k.pollWakeup table = k ∨
    (k.pollTable table).signalled = false ∧ k.pollWakeup table = { k with
      pollTable := update k.pollTable table { k.pollTable table with signalled := true }
      pollIds := update k.pollIds (k.pollTable table).tid true } := by
  unfold pollWakeup
  dsimp only
  cases hsignal : (k.pollTable table).signalled with
  | true => exact .inl ⟨rfl, if_pos rfl⟩
  | false => exact .inr ⟨rfl, by simp⟩

/-- One item. -/
lemma Roused.single (h : k.Stocked) (ha : a ∈ k.waitQueue w) (hitem : k.item a = some i) :
    ∃ k₁ : System N, Roused [a] k (k₁.removeItem w a) ∧
      k₁.waitQueue = k.waitQueue ∧ k₁.item = k.item ∧
      ∀ l, resumeItems w (a :: l) k = resumeItems w l (k₁.removeItem w a) := by
  have hstays : ∀ (k₁ : System N), k₁.waitQueue = k.waitQueue → k₁.item = k.item →
      ∀ j, (∀ b ∈ [a], k.item b ≠ some j) → Stays j k (k₁.removeItem w a) := by
    intro k₁ hqueue hitems j hj
    apply (Stays.of_eq hqueue hitems).trans
    apply Stays.removeItem
    rw [hitems]
    exact hj a (List.mem_singleton_self a)
  have hstocked : ∀ (k₁ : System N), k₁.waitQueue = k.waitQueue → k₁.item = k.item →
      (k₁.removeItem w a).Stocked := by
    intro k₁ hqueue hitems
    apply (h.congr hqueue hitems).removeItem
    rw [hqueue]
    exact ha
  cases i with
  | owner t =>
    refine ⟨{ k with ioIds := update k.ioIds t true }, ?_, rfl, rfl, fun l => ?_⟩
    · refine ⟨hstocked _ rfl rfl, hstays _ rfl rfl, ?_, fun _ hbit => hbit,
        fun _ => ⟨rfl, rfl, .inl rfl⟩, ?_⟩
      · rintro u hu
        change update k.ioIds t true u = true
        by_cases hut : u = t
        · rw [hut, update_self]
        · rw [update_of_ne hut]
          refine hu.resolve_right ?_
          rintro ⟨b, hb, heq⟩
          rw [List.mem_singleton.mp hb, hitem] at heq
          exact hut (WaitItem.owner.inj (Option.some.inj heq)).symm
      · intro table b hb heq
        rw [List.mem_singleton.mp hb, hitem] at heq
        simp at heq
    · rw [resumeItems, hitem]
  | poll table =>
    refine ⟨k.pollWakeup table, ?_, ?_, ?_, fun l => ?_⟩
    · rcases k.pollWakeup_cases table with ⟨hsignal, heq⟩ | ⟨hsignal, heq⟩
      · rw [heq]
        refine ⟨hstocked _ rfl rfl, hstays _ rfl rfl, ?_, fun _ hbit => hbit,
          fun _ => ⟨rfl, rfl, .inl rfl⟩, ?_⟩
        · rintro u (hbit | ⟨b, hb, howner⟩)
          · exact hbit
          · rw [List.mem_singleton.mp hb, hitem] at howner
            simp at howner
        · intro table' b hb hpoll hquiet
          rw [List.mem_singleton.mp hb, hitem] at hpoll
          obtain rfl : table = table' := WaitItem.poll.inj (Option.some.inj hpoll)
          rw [hsignal] at hquiet
          contradiction
      · rw [heq]
        refine ⟨hstocked _ rfl rfl, hstays _ rfl rfl, ?_, ?_, ?_, ?_⟩
        · rintro u (hbit | ⟨b, hb, howner⟩)
          · exact hbit
          · rw [List.mem_singleton.mp hb, hitem] at howner
            simp at howner
        · intro u hbit
          change update k.pollIds _ true u = true
          rw [update_apply]
          split
          · rfl
          · exact hbit
        · intro table'
          by_cases ht : table' = table
          · subst ht
            simp [System.removeItem]
          · simp [System.removeItem, ht]
        · intro table' b hb hpoll hquiet
          rw [List.mem_singleton.mp hb, hitem] at hpoll
          obtain rfl : table = table' := WaitItem.poll.inj (Option.some.inj hpoll)
          exact update_self ..
    · rcases k.pollWakeup_cases table with ⟨-, heq⟩ | ⟨-, heq⟩ <;> rw [heq]
    · rcases k.pollWakeup_cases table with ⟨-, heq⟩ | ⟨-, heq⟩ <;> rw [heq]
    · rw [resumeItems, hitem]

theorem resumeItems_roused (l : List Nat) : ∀ {k : System N}, k.Stocked → l.Nodup →
    (∀ a ∈ l, a ∈ k.waitQueue w) → resumeItems w l k = some k' → Roused l k k' := by
  induction l with
  | nil =>
    intro k h _ _ heq
    cases heq
    refine ⟨h, fun _ _ => Stays.of_eq rfl rfl, ?_, fun _ hbit => hbit,
      fun _ => ⟨rfl, rfl, .inl rfl⟩, fun _ b hb => absurd hb (List.not_mem_nil)⟩
    rintro t (hbit | ⟨b, hb, -⟩)
    · exact hbit
    · exact absurd hb List.not_mem_nil
  | cons a l ih =>
    intro k h hnodup hsub heq
    obtain ⟨hnot, hnodup'⟩ := List.nodup_cons.mp hnodup
    have ha : a ∈ k.waitQueue w := hsub a (.head _)
    obtain ⟨i, hitem⟩ := Option.ne_none_iff_exists'.mp (h.used w a ha)
    obtain ⟨k₁, hone, hqueue, hitems, hstep⟩ := Roused.single h ha hitem
    rw [hstep] at heq
    have hother : ∀ b ∈ l, b ≠ a := by
      rintro b hb rfl
      exact hnot hb
    have hsame : ∀ b ∈ l, (k₁.removeItem w a).item b = k.item b := by
      intro b hb
      rw [removeItem_item_of_ne (hother b hb), hitems]
    have hrest := ih hone.stocked hnodup' (by
      intro b hb
      rw [removeItem_waitQueue_self, hqueue]
      exact (List.mem_erase_of_ne (hother b hb)).mpr (hsub b (.tail _ hb))) heq
    constructor
    · exact hrest.stocked
    · intro j hj
      refine (hone.stays j ?_).trans (hrest.stays j ?_)
      · intro b hb
        rw [List.mem_singleton.mp hb]
        exact hj a (.head _)
      · intro b hb
        rw [hsame b hb]
        exact hj b (.tail _ hb)
    · rintro t (hbit | ⟨b, hb, howner⟩)
      · exact hrest.owners t (.inl (hone.owners t (.inl hbit)))
      · rcases List.mem_cons.mp hb with rfl | hb
        · exact hrest.owners t
            (.inl (hone.owners t (.inr ⟨b, List.mem_singleton_self b, howner⟩)))
        · exact hrest.owners t (.inr ⟨b, hb, (hsame b hb).trans howner⟩)
    · exact fun t hbit => hrest.marks t (hone.marks t hbit)
    · intro table
      obtain ⟨htid, hlist, hsignal⟩ := hone.tables table
      obtain ⟨htid', hlist', hsignal'⟩ := hrest.tables table
      rw [htid] at hsignal'
      refine ⟨htid'.trans htid, hlist'.trans hlist, ?_⟩
      rcases hsignal with hsignal | hmark
      · exact hsignal'.imp_left fun heq' => heq'.trans hsignal
      · exact .inr (hrest.marks _ hmark)
    · intro table b hb hpoll hquiet
      obtain ⟨htid, -, hsignal⟩ := hone.tables table
      rcases List.mem_cons.mp hb with rfl | hb
      · exact hrest.marks _ (hone.polls table b (List.mem_singleton_self b) hpoll hquiet)
      · rcases hsignal with hsignal | hmark
        · have hpolls := hrest.polls table b hb ((hsame b hb).trans hpoll)
            (hsignal.trans hquiet)
          rwa [htid] at hpolls
        · exact hrest.marks _ hmark

/-! ## Polls -/

lemma cleanupItems_stocked (l : List (Nat × Nat)) : ∀ {k : System N}, k.Stocked →
    cleanupItems l k = some k' → k'.Stocked := by
  induction l with
  | nil =>
    intro k h heq
    cases heq
    exact h
  | cons p l ih =>
    intro k h heq
    rw [cleanupItems] at heq
    split at heq
    · next ha => exact ih (h.removeItem ha) heq
    · split at heq
      · exact ih h heq
      · contradiction

/-- A poll that takes its own items back leaves the others alone. -/
theorem cleanupItems_stays (table : Nat) (l : List (Nat × Nat)) : ∀ {k : System N}, k.Stocked →
    (∀ p ∈ l, p.1 ∈ k.waitQueue p.2 → k.item p.1 = some (.poll table)) →
    cleanupItems l k = some k' → ∀ i, i ≠ .poll table → Stays i k k' := by
  induction l with
  | nil =>
    intro k h _ heq
    cases heq
    exact fun _ _ => Stays.of_eq rfl rfl
  | cons p l ih =>
    obtain ⟨a, w⟩ := p
    intro k h hown heq i hi
    rw [cleanupItems] at heq
    split at heq
    · next ha =>
        have hitem := hown (a, w) List.mem_cons_self ha
        have hrest := ih (h.removeItem ha) (by
          intro p hp hin
          have hpa : p.1 ≠ a := by
            intro hpa
            exact h.not_mem_removeItem ha p.2 (hpa ▸ hin)
          rw [removeItem_item_of_ne hpa]
          exact hown p (.tail _ hp) (mem_of_mem_removeItem hin)) heq i hi
        refine Stays.trans (Stays.removeItem ?_) hrest
        rw [hitem]
        exact fun hsame => hi (Option.some.inj hsame).symm
    · split at heq
      · exact ih h (fun p hp => hown p (.tail _ hp)) heq i hi
      · contradiction

/-- All items of the table are in their queues. -/
def TableLinked (k : System N) (table : Nat) : Prop :=
  ∀ p ∈ (k.pollTable table).items, p.1 ∈ k.waitQueue p.2 ∧ k.item p.1 = some (.poll table)

/-- No driver reports an event, so that a poll with a time-out blocks. -/
def quiet (fds : List (Option PollAnswer)) : Bool :=
  fds.all fun answer => answer.all fun answer => decide (answer.events = some false)

/-- The items `new` were added to the table. -/
structure Polled (table : Nat) (new : List Nat) (k k' : System N) : Prop where
  stocked : k'.Stocked
  stays : ∀ i, Stays i k k'
  fresh : ∀ a, a ∉ new → k'.item a = k.item a
  others : ∀ table', table' ≠ table → k'.pollTable table' = k.pollTable table'
  tid : (k'.pollTable table).tid = (k.pollTable table).tid
  linked : k.TableLinked table → k'.TableLinked table
  firsts : (k'.pollTable table).items.map Prod.fst =
    (k.pollTable table).items.map Prod.fst ++ new
  signalled : (k'.pollTable table).signalled = false → (k.pollTable table).signalled = false

lemma Polled.refl (h : k.Stocked) : Polled table [] k k :=
  ⟨h, fun _ => Stays.of_eq rfl rfl, fun _ _ => rfl, fun _ _ => rfl, rfl, id, by simp, id⟩

lemma Polled.trans {new new' : List Nat} (h : Polled table new k k')
    (h' : Polled table new' k' k'') : Polled table (new ++ new') k k'' where
  stocked := h'.stocked
  stays := fun i => (h.stays i).trans (h'.stays i)
  fresh := by
    intro a ha
    rw [List.mem_append, not_or] at ha
    rw [h'.fresh a ha.2, h.fresh a ha.1]
  others := fun table' ht => (h'.others table' ht).trans (h.others table' ht)
  tid := h'.tid.trans h.tid
  linked := fun hlinked => h'.linked (h.linked hlinked)
  firsts := by rw [h'.firsts, h.firsts, List.append_assoc]
  signalled := fun hquiet => h.signalled (h'.signalled hquiet)

/-- A driver adds one item. -/
lemma Polled.addItem (h : k.Stocked) (hfree : k.item a = none) :
    Polled table [a] k { k.addItem w a (.poll table) with
      pollTable := update k.pollTable table
        { k.pollTable table with items := (k.pollTable table).items ++ [(a, w)] } } where
  stocked := (h.addItem hfree).congr rfl rfl
  stays := fun i => (Stays.addItem hfree).trans (Stays.of_eq rfl rfl)
  fresh := fun b hb => update_of_ne (by simpa using hb) _ _
  others := fun table' ht => update_of_ne ht _ _
  tid := by simp
  linked := by
    intro hlinked p hp
    have hp' : p ∈ (k.pollTable table).items ∨ p = (a, w) := by simpa using hp
    have hin : p.1 ∈ (k.addItem w a (.poll table)).waitQueue p.2 ∧
        (k.addItem w a (.poll table)).item p.1 = some (.poll table) := by
      rcases hp' with hp' | rfl
      · exact Stays.addItem hfree p.2 p.1 (hlinked p hp').1 (hlinked p hp').2
      · exact ⟨mem_addItem.mpr (.inr ⟨rfl, rfl⟩), update_self ..⟩
    exact hin
  firsts := by simp
  signalled := by simp

lemma Polled.setSignalled (h : k.Stocked) : Polled table [] k { k with
    pollTable := update k.pollTable table
      { k.pollTable table with signalled := true } } where
  stocked := h.congr rfl rfl
  stays := fun _ => Stays.of_eq rfl rfl
  fresh := fun _ _ => rfl
  others := fun table' ht => update_of_ne ht _ _
  tid := by simp
  linked := by
    intro hlinked p hp
    exact hlinked p (by simpa using hp)
  firsts := by simp
  signalled := by simp

lemma pollWait_polled (l : List (Nat × Nat)) : ∀ {k : System N}, k.Stocked →
    (l.map Prod.fst).Nodup → (∀ a ∈ l.map Prod.fst, k.item a = none) →
    Polled table (l.map Prod.fst) k (pollWait table l k) := by
  induction l with
  | nil => exact fun h _ _ => .refl h
  | cons p l ih =>
    obtain ⟨a, w⟩ := p
    intro k h hnodup hfree
    obtain ⟨hnot, hnodup'⟩ := List.nodup_cons.mp hnodup
    have hone : Polled table [a] k _ := Polled.addItem (w := w) h (hfree a (.head _))
    refine hone.trans (ih hone.stocked hnodup' fun b hb => ?_)
    rw [hone.fresh b]
    · exact hfree b (.tail _ hb)
    · rintro hba
      exact hnot (List.mem_singleton.mp hba ▸ hb)

theorem pollFirst_polled (fds : List (Option PollAnswer)) : ∀ {k : System N} {ok : Bool},
    k.Stocked → (newItems fds).Nodup → (∀ a ∈ newItems fds, k.item a = none) →
    pollFirst table fds k = (k', ok) → ∃ new, Polled table new k k' ∧
      (ok = true → new = newItems fds ∧
        ((k'.pollTable table).signalled = false → quiet fds = true)) := by
  induction fds with
  | nil =>
    intro k ok h _ _ heq
    cases heq
    exact ⟨[], .refl h, fun _ => ⟨rfl, fun _ => rfl⟩⟩
  | cons fd fds ih =>
    intro k ok h hnodup hfree heq
    cases fd with
    | none => exact ih h hnodup hfree heq
    | some answer =>
      have hsplit : newItems (some answer :: fds) =
          answer.waits.map Prod.fst ++ newItems fds := rfl
      rw [hsplit] at hnodup hfree ⊢
      obtain ⟨hfirst, hrest, hdisjoint⟩ := List.nodup_append.mp hnodup
      have hone : Polled table _ k (pollWait table answer.waits k) :=
        pollWait_polled answer.waits h hfirst fun a ha => hfree a (List.mem_append_left _ ha)
      have hfree' : ∀ a ∈ newItems fds, (pollWait table answer.waits k).item a = none := by
        intro a ha
        rw [hone.fresh a fun hin => hdisjoint a hin a ha rfl]
        exact hfree a (List.mem_append_right _ ha)
      rw [pollFirst] at heq
      split at heq
      · cases heq
        exact ⟨_, hone, by simp⟩
      · next hevents =>
          obtain ⟨new, hnew, hok⟩ := ih hone.stocked hrest hfree' heq
          refine ⟨_, hone.trans hnew, fun htrue => ?_⟩
          obtain ⟨rfl, hquiet⟩ := hok htrue
          refine ⟨rfl, fun hsignal => ?_⟩
          simpa [quiet, hevents] using hquiet hsignal
      · next hevents =>
          have hset : Polled table [] (pollWait table answer.waits k) _ :=
            Polled.setSignalled hone.stocked
          obtain ⟨new, hnew, hok⟩ := ih hset.stocked hrest hfree' heq
          refine ⟨_, hone.trans (hset.trans hnew), fun htrue => ?_⟩
          obtain ⟨rfl, -⟩ := hok htrue
          refine ⟨rfl, fun hsignal => ?_⟩
          have hfalse := hnew.signalled hsignal
          simp at hfalse

end System

/-- Every call leaves the queues in order. -/
theorem Effect.stocked {k k' : System N} {a : Action} {outcome : Outcome}
    (h : Effect k a k' outcome) (hallowed : k.Allowed a) (hmay : a ≠ .threadMaySuspend)
    (hstocked : k.Stocked) : k'.Stocked := by
  have hfirst : ∀ {table : Nat} {fds : List (Option PollAnswer)} {ok : Bool} {k₁ : System N},
      (System.newItems fds).Nodup → (∀ a ∈ System.newItems fds, k.item a = none) →
      System.pollFirst table fds (k.withTable table) = (k₁, ok) → k₁.Stocked := by
    intro table fds ok k₁ hnodup hfree heq
    have hwith : (k.withTable table).Stocked := hstocked.congr rfl rfl
    obtain ⟨_, hpolled, -⟩ := System.pollFirst_polled fds hwith hnodup hfree heq
    exact hpolled.stocked
  cases h with
  | stayed | gaveWay => exact absurd rfl hmay
  | barrierDone =>
    obtain ⟨_, _, heq, -⟩ := System.resumeOnBarriers_eq k.barriers k
    rw [heq]
    exact hstocked.congr rfl rfl
  | ioWaits hrun hr hnew => exact (hstocked.addItem hnew).congr rfl rfl
  | ioResumed hresume =>
    exact (System.resumeItems_roused _ hstocked (hstocked.nodup _) (fun _ ha => ha)
      hresume).stocked
  | @killed tid _ _ _ _ _ hcancel =>
    rcases System.cancelWait_cases hcancel with ⟨-, q, -, rfl⟩ | ⟨-, b, -, rfl⟩ | ⟨-, rfl⟩ |
      ⟨-, mutex, queues, -, -, rfl⟩ | ⟨-, rfl⟩
    · exact hstocked.congr rfl rfl
    · exact hstocked.congr rfl rfl
    · exact (System.cancelIoWaits_stocked hstocked tid).congr rfl rfl
    · exact hstocked.congr rfl rfl
    · exact hstocked.congr rfl rfl
  | pollFailed hpoll hclean | polled hpoll hclean =>
    obtain ⟨_, hitems, rfl⟩ := Option.map_eq_some_iff.mp hclean
    exact (System.cleanupItems_stocked _ (hfirst hallowed.2.2.1 hallowed.2.2.2 hpoll)
      hitems).congr rfl rfl
  | pollWaits _ _ hpoll =>
    exact (hfirst hallowed.2.2.1 hallowed.2.2.2 hpoll).congr rfl rfl
  | @pollFinished r _ _ _ _ hrun hcall hclean =>
    obtain ⟨_, hitems, rfl⟩ := Option.map_eq_some_iff.mp hclean
    exact (System.cleanupItems_stocked (k := { k with call := update k.call r .none })
      _ (hstocked.congr rfl rfl) hitems).congr rfl rfl
  | _ => exact hstocked.congr rfl rfl

end DiegOS.Kernel
