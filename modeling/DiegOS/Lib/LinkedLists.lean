import DiegOS.Lib.LinkedQueues

/-!
# Families of intrusive lists

Doubly linked lists whose nodes carry their own link fields, so that one node can be a member of
one list at a time.  Head, tail and counter are those of a queue; an access through a null pointer
has no result.  The links back are those of the reversed list, so that every fact about links is
used once for each direction.

Main results:

- Theorems `Linked.put` and `Linked.take`: a node put between two parts of a list, and
  taken out.
- Theorem `LinkedLists.Holds.add`: a node is put behind a member, or in front of all.
- Theorem `LinkedLists.Holds.remove`: a member leaves.
-/

namespace DiegOS.Lib

open Function

namespace LinkedQueues

variable {α : Type} {f f' : α → Option α} {u v : List α} {d : α}

/-- Links of a list whose end is replaced. -/
lemma Linked.splice {w : List α} (h : Linked f (u ++ v)) (hnodup : u.Nodup) (hw : Linked f' w)
    (hlast : ∀ t, u.getLast? = some t → f' t = w.head?)
    (hkept : ∀ a ∈ u, u.getLast? ≠ some a → f' a = f a) : Linked f' (u ++ w) := by
  induction u with
  | nil => exact hw
  | cons a u ih =>
    cases u with
    | nil => exact ⟨hlast a rfl, hw⟩
    | cons b u =>
      have hlater : (a :: b :: u).getLast? = (b :: u).getLast? := List.getLast?_cons_cons
      have hfresh := List.nodup_cons.mp hnodup
      rw [hlater] at hlast hkept
      refine ⟨?_, ih h.2 hfresh.2 hlast fun x hx => hkept x (List.mem_cons_of_mem a hx)⟩
      rw [hkept a (.head _), h.1]
      · rfl
      · exact fun hab => hfresh.1 (List.mem_of_getLast? hab)

/-- Links of a list with a node put between two parts of it. -/
theorem Linked.put (h : Linked f (u ++ v)) (hnodup : (u ++ v).Nodup) (hd : f' d = v.head?)
    (hlast : ∀ t, u.getLast? = some t → f' t = some d)
    (hkept : ∀ a ∈ u ++ v, u.getLast? ≠ some a → f' a = f a) : Linked f' (u ++ d :: v) := by
  refine h.splice (List.nodup_append.mp hnodup).1 ⟨hd, h.suffix.congr fun a ha => ?_⟩ hlast
    fun a ha => hkept a (List.mem_append_left v ha)
  exact hkept a (List.mem_append_right u ha) fun hend =>
    List.disjoint_of_nodup_append hnodup (List.mem_of_getLast? hend) ha

/-- Links of a list without a node between two parts of it. -/
theorem Linked.take (h : Linked f (u ++ d :: v)) (hnodup : (u ++ d :: v).Nodup)
    (hlast : ∀ t, u.getLast? = some t → f' t = v.head?)
    (hkept : ∀ a ∈ u ++ v, u.getLast? ≠ some a → f' a = f a) : Linked f' (u ++ v) := by
  have hrest : Linked f (d :: v) := h.suffix
  refine h.splice (List.nodup_append.mp hnodup).1 (hrest.2.congr fun a ha => ?_) hlast
    fun a ha => hkept a (List.mem_append_left v ha)
  exact hkept a (List.mem_append_right u ha) fun hend =>
    List.disjoint_of_nodup_append hnodup (List.mem_of_getLast? hend) (.tail d ha)

/-- What a node between two parts of a list links to. -/
lemma Linked.next_eq (h : Linked f (u ++ d :: v)) : f d = v.head? := by
  have hsuffix : Linked f (d :: v) := h.suffix
  exact hsuffix.1

end LinkedQueues

/-- Lists indexed by `ι` over nodes that share their link fields. -/
structure LinkedLists (ι α : Type) where
  prev : α → Option α
  next : α → Option α
  inst : ι → QueueInst α

namespace LinkedLists

variable {ι α : Type} [DecidableEq ι] [DecidableEq α]

/-! ## Operations -/

/-- Overwrite one link back. -/
def setPrev (s : LinkedLists ι α) (a : α) (b : Option α) : LinkedLists ι α :=
  { s with prev := Function.update s.prev a b }

/-- Overwrite one link. -/
def setNext (s : LinkedLists ι α) (a : α) (b : Option α) : LinkedLists ι α :=
  { s with next := Function.update s.next a b }

/-- Overwrite one list. -/
def setInst (s : LinkedLists ι α) (i : ι) (q : QueueInst α) : LinkedLists ι α :=
  { s with inst := Function.update s.inst i q }

/-- Put a node behind another one, or in front of all; the first node of a list has no place. -/
def add (s : LinkedLists ι α) (i : ι) (prev : Option α) (d : α) : Option (LinkedLists ι α) :=
  let q := s.inst i
  if q.counter = 0 then
    some (((s.setInst i ⟨some d, some d, 1⟩).setPrev d none).setNext d none)
  else
    let s := s.setPrev d prev
    match prev with
    | none =>
      q.head.map fun h =>
        ((s.setNext d (some h)).setPrev h (some d)).setInst i ⟨some d, q.tail, q.counter + 1⟩
    | some p =>
      if prev = q.tail then
        some (((s.setNext d none).setNext p (some d)).setInst i
          ⟨q.head, some d, q.counter + 1⟩)
      else
        let s := (s.setNext d (s.next p)).setNext p (some d)
        (s.next d).map fun n =>
          (s.setPrev n (some d)).setInst i ⟨q.head, q.tail, q.counter + 1⟩

/-- Take a node out of a list that is not empty. -/
def remove (s : LinkedLists ι α) (i : ι) (d : α) : LinkedLists ι α :=
  let q := s.inst i
  let s := s.setInst i ⟨if q.head = some d then s.next d else q.head,
    if q.tail = some d then s.prev d else q.tail, q.counter - 1⟩
  let s := (s.prev d).elim s fun p => s.setNext p (s.next d)
  let s := (s.next d).elim s fun n => s.setPrev n (s.prev d)
  (s.setPrev d none).setNext d none

/-! ## The lists behind the links -/

/-- Head, tail, counter and both links describe one list. -/
structure Describes (s : LinkedLists ι α) (i : ι) (l : List α) : Prop where
  queue : LinkedQueues.Describes s.next (s.inst i) l
  back : LinkedQueues.Linked s.prev l.reverse

/-- The lists are disjoint and without repetitions. -/
structure Holds (s : LinkedLists ι α) (L : ι → List α) : Prop where
  describes : ∀ i, s.Describes i (L i)
  nodup : ∀ i, (L i).Nodup
  disjoint : ∀ i j, i ≠ j → (L i).Disjoint (L j)

/-- A node has been put between two parts of a list, and nothing else has changed. -/
structure Put (s s' : LinkedLists ι α) (i : ι) (d : α) (u v : List α) : Prop where
  inst : s'.inst = Function.update s.inst i
    ⟨(u ++ d :: v).head?, (u ++ d :: v).getLast?, (u ++ d :: v).length⟩
  next : s'.next d = v.head?
  prev : s'.prev d = u.getLast?
  last : ∀ t, u.getLast? = some t → s'.next t = some d
  first : ∀ t, v.head? = some t → s'.prev t = some d
  next_kept : ∀ a, a ≠ d → u.getLast? ≠ some a → s'.next a = s.next a
  prev_kept : ∀ a, a ≠ d → v.head? ≠ some a → s'.prev a = s.prev a

/-- A node between two parts of a list has been taken out, and nothing else has changed. -/
structure Taken (s s' : LinkedLists ι α) (i : ι) (d : α) (u v : List α) : Prop where
  inst : s'.inst = Function.update s.inst i ⟨(u ++ v).head?, (u ++ v).getLast?, (u ++ v).length⟩
  last : ∀ t, u.getLast? = some t → s'.next t = v.head?
  first : ∀ t, v.head? = some t → s'.prev t = u.getLast?
  next_kept : ∀ a, a ≠ d → u.getLast? ≠ some a → s'.next a = s.next a
  prev_kept : ∀ a, a ≠ d → v.head? ≠ some a → s'.prev a = s.prev a

section Add

variable {s : LinkedLists ι α} {i : ι} {d n p : α} {u v : List α}

/-- The first node of a list. -/
lemma put_first (hcounter : (s.inst i).counter = 0) (prev : Option α) (d : α) :
    ∃ s', s.add i prev d = some s' ∧ Put s s' i d [] [] := by
  refine ⟨_, if_pos hcounter, rfl, ?_, ?_, nofun, nofun, ?_, ?_⟩
  · simp [setNext]
  · simp [setNext, setPrev]
  · intro a had _
    simp [setNext, setPrev, setInst, had]
  · intro a had _
    simp [setNext, setPrev, setInst, had]

/-- A node in front of the others. -/
lemma put_front (hdesc : LinkedQueues.Describes s.next (s.inst i) (n :: v)) (hnd : n ≠ d) :
    ∃ s', s.add i none d = some s' ∧ Put s s' i d [] (n :: v) := by
  obtain ⟨hhead, htail, hcounter, -⟩ := hdesc
  have hadd : s.add i none d = some ((((s.setPrev d none).setNext d (some n)).setPrev n
      (some d)).setInst i ⟨some d, (s.inst i).tail, (s.inst i).counter + 1⟩) := by
    rw [add, if_neg (by rw [hcounter]; exact Nat.succ_ne_zero _)]
    dsimp only
    rw [hhead, List.head?_cons, Option.map_some]
  refine ⟨_, hadd, ⟨?_, ?_, ?_, nofun, ?_, ?_, ?_⟩⟩
  · rw [htail, hcounter]
    simp [setInst, setNext, setPrev]
  · simp [setInst, setNext, setPrev]
  · simp [setInst, setNext, setPrev, Ne.symm hnd]
  · intro t ht
    obtain rfl : n = t := by simpa using ht
    simp [setInst, setNext, setPrev]
  · intro a had _
    simp [setInst, setNext, setPrev, had]
  · intro a had hfirst
    have han : a ≠ n := fun heq => hfirst (heq ▸ rfl)
    simp [setInst, setNext, setPrev, had, han]

/-- A node behind the last one. -/
lemma put_end (hdesc : LinkedQueues.Describes s.next (s.inst i) (u ++ [p])) (hpd : p ≠ d) :
    ∃ s', s.add i (some p) d = some s' ∧ Put s s' i d (u ++ [p]) [] := by
  obtain ⟨hhead, htail, hcounter, -⟩ := hdesc
  rw [List.getLast?_concat] at htail
  have hadd : s.add i (some p) d = some ((((s.setPrev d (some p)).setNext d none).setNext p
      (some d)).setInst i ⟨(s.inst i).head, some d, (s.inst i).counter + 1⟩) := by
    rw [add, if_neg (by rw [hcounter, List.length_append]; exact Nat.succ_ne_zero _)]
    dsimp only
    rw [if_pos htail.symm]
  refine ⟨_, hadd, ⟨?_, ?_, ?_, ?_, nofun, ?_, ?_⟩⟩
  · have hsame : (u ++ [p] ++ [d]).head? = (u ++ [p]).head? := by cases u <;> rfl
    rw [hsame, ← hhead, List.getLast?_concat, List.length_append, ← hcounter]
    rfl
  · simp [setInst, setNext, setPrev, Ne.symm hpd]
  · simp [setInst, setNext, setPrev]
  · intro t ht
    obtain rfl : p = t := by simpa using ht
    simp [setInst, setNext, setPrev]
  · intro a had hlast
    have hap : a ≠ p := fun heq => hlast (by rw [List.getLast?_concat, heq])
    simp [setInst, setNext, setPrev, had, hap]
  · intro a had _
    simp [setInst, setNext, setPrev, had]

/-- A node between two others. -/
lemma put_between (hdesc : LinkedQueues.Describes s.next (s.inst i) (u ++ p :: n :: v))
    (hnodup : (u ++ p :: n :: v).Nodup) (hpd : p ≠ d) (hnd : n ≠ d) :
    ∃ s', s.add i (some p) d = some s' ∧ Put s s' i d (u ++ [p]) (n :: v) := by
  obtain ⟨hhead, htail, hcounter, hlinked⟩ := hdesc
  have hnext : s.next p = some n := hlinked.next_eq
  have hlast : some p ≠ (s.inst i).tail := by
    rw [htail, List.getLast?_append_of_ne_nil _ (List.cons_ne_nil _ _), List.getLast?_cons_cons]
    intro heq
    have hmem : p ∈ n :: v := List.mem_of_getLast? heq.symm
    exact (List.nodup_cons.mp (List.nodup_append.mp hnodup).2.1).1 hmem
  have hadd : s.add i (some p) d = some (((((s.setPrev d (some p)).setNext d (some n)).setNext p
      (some d)).setPrev n (some d)).setInst i
        ⟨(s.inst i).head, (s.inst i).tail, (s.inst i).counter + 1⟩) := by
    rw [add, if_neg (by rw [hcounter, List.length_append]; exact Nat.succ_ne_zero _)]
    dsimp only
    rw [if_neg hlast]
    simp only [setNext, setPrev, update_of_ne (Ne.symm hpd), update_self,
      hnext, Option.map_some]
  refine ⟨_, hadd, ⟨?_, ?_, ?_, ?_, ?_, ?_, ?_⟩⟩
  · have hfront : (u ++ [p] ++ d :: n :: v).head? = (u ++ p :: n :: v).head? := by
      cases u <;> rfl
    have hend : (u ++ [p] ++ d :: n :: v).getLast? = (u ++ p :: n :: v).getLast? := by
      rw [List.getLast?_append_of_ne_nil _ (List.cons_ne_nil _ _),
        List.getLast?_append_of_ne_nil _ (List.cons_ne_nil _ _), List.getLast?_cons_cons,
        List.getLast?_cons_cons]
    have hlength : (u ++ [p] ++ d :: n :: v).length = (u ++ p :: n :: v).length + 1 := by
      simp
      omega
    rw [hfront, hend, hlength, ← hhead, ← htail, ← hcounter]
    rfl
  · simp [setInst, setNext, setPrev, Ne.symm hpd]
  · simp [setInst, setNext, setPrev, Ne.symm hnd]
  · intro t ht
    obtain rfl : p = t := by simpa using ht
    simp [setInst, setNext, setPrev]
  · intro t ht
    obtain rfl : n = t := by simpa using ht
    simp [setInst, setNext, setPrev]
  · intro a had hlast
    have hap : a ≠ p := fun heq => hlast (by rw [List.getLast?_concat, heq])
    simp [setInst, setNext, setPrev, had, hap]
  · intro a had hfirst
    have han : a ≠ n := fun heq => hfirst (heq ▸ rfl)
    simp [setInst, setNext, setPrev, had, han]

end Add

section Remove

variable {s : LinkedLists ι α} {i : ι} {d : α} {u v : List α}

lemma remove_inst (s : LinkedLists ι α) (i : ι) (d : α) :
    (s.remove i d).inst = update s.inst i
      ⟨if (s.inst i).head = some d then s.next d else (s.inst i).head,
        if (s.inst i).tail = some d then s.prev d else (s.inst i).tail,
        (s.inst i).counter - 1⟩ := by
  unfold remove
  dsimp only [setInst]
  cases s.prev d with
  | none => cases hnext : s.next d <;> simp [setNext, setPrev, hnext]
  | some p =>
    simp only [Option.elim_some]
    cases (setNext _ p _).next d <;> rfl

/-- The links of the other nodes. -/
lemma remove_links (hprev : s.prev d ≠ some d) {a : α} (had : a ≠ d) :
    (s.remove i d).next a = (if s.prev d = some a then s.next d else s.next a) ∧
      (s.remove i d).prev a = if s.next d = some a then s.prev d else s.prev a := by
  unfold remove
  dsimp only [setInst]
  cases hp : s.prev d with
  | none =>
    cases hn : s.next d with
    | none => simp [setNext, setPrev, had, hn]
    | some n => simp [setNext, setPrev, update_apply, had, hn, hp, eq_comm]
  | some p =>
    have hpd : d ≠ p := fun heq => hprev (heq ▸ hp)
    cases hn : s.next d with
    | none => simp [setNext, setPrev, update_apply, had, hn, hpd, eq_comm]
    | some n => simp [setNext, setPrev, update_apply, had, hn, hp, hpd, eq_comm]

end Remove

namespace Holds

variable {s s' : LinkedLists ι α} {L : ι → List α} {i : ι} {d : α} {u v : List α}

omit [DecidableEq α] in
/-- One list changes, the others keep their nodes and links. -/
lemma replace (h : s.Holds L) {l : List α} (hdesc : s'.Describes i l) (hnodup : l.Nodup)
    (hinst : ∀ j, j ≠ i → s'.inst j = s.inst j)
    (hlinks : ∀ j, j ≠ i → ∀ a ∈ L j, s'.next a = s.next a ∧ s'.prev a = s.prev a)
    (hdisj : ∀ j, j ≠ i → l.Disjoint (L j)) : s'.Holds (update L i l) where
  describes := by
    intro j
    by_cases hj : j = i
    · subst hj
      rwa [update_self]
    · obtain ⟨hqueue, hback⟩ := h.describes j
      rw [update_of_ne hj]
      refine ⟨?_, hback.congr fun a ha => (hlinks j hj a (List.mem_reverse.mp ha)).2⟩
      rw [hinst j hj]
      exact ⟨hqueue.head, hqueue.tail, hqueue.counter,
        hqueue.linked.congr fun a ha => (hlinks j hj a ha).1⟩
  nodup := LinkedQueues.update_nodup h.nodup hnodup
  disjoint := LinkedQueues.update_disjoint h.disjoint hdisj

omit [DecidableEq ι] [DecidableEq α] in
/-- Other lists do not see a node of this one. -/
lemma not_mem (h : s.Holds L) {a : α} (ha : a ∈ L i) {j : ι} (hj : j ≠ i) : a ∉ L j :=
  fun haj => h.disjoint j i hj haj ha

omit [DecidableEq ι] [DecidableEq α] in
/-- The neighbours of a place are members. -/
lemma mem_of_neighbour {a : α} (ha : u.getLast? = some a ∨ v.head? = some a) : a ∈ u ++ v := by
  rcases ha with ha | ha
  · exact List.mem_append_left v (List.mem_of_getLast? ha)
  · exact List.mem_append_right u (List.mem_of_head? ha)

omit [DecidableEq α] in
/-- A node outside all lists has been put in its place. -/
theorem put (h : s.Holds L) (hd : ∀ j, d ∉ L j) (hsplit : L i = u ++ v) (hput : Put s s' i d u v) :
    s'.Holds (update L i (u ++ d :: v)) := by
  have hne : ∀ j, ∀ a ∈ L j, a ≠ d := by
    rintro j a ha rfl
    exact hd j ha
  have hnodup := h.nodup i
  have hdesc := h.describes i
  rw [hsplit] at hnodup hdesc
  have hmem : ∀ a ∈ u ++ v, a ∈ L i := fun a ha => hsplit ▸ ha
  refine h.replace ⟨⟨?_, ?_, ?_, ?_⟩, ?_⟩ ?_ (fun j hj => ?_) (fun j hj a ha => ?_)
    fun j hj => ?_
  · rw [hput.inst, update_self]
  · rw [hput.inst, update_self]
  · rw [hput.inst, update_self]
  · refine hdesc.queue.linked.put hnodup hput.next hput.last fun a ha hlast => ?_
    exact hput.next_kept a (hne i a (hsplit ▸ ha)) hlast
  · have hback := hdesc.back
    rw [List.reverse_append] at hback
    rw [List.reverse_append, List.reverse_cons, List.append_assoc, List.singleton_append]
    refine hback.put (List.reverse_append ▸ List.nodup_reverse.mpr hnodup) ?_ ?_ ?_
    · rw [hput.prev, List.head?_reverse]
    · intro t ht
      exact hput.first t (by rwa [List.getLast?_reverse] at ht)
    · intro a ha hlast
      rw [List.getLast?_reverse] at hlast
      rw [← List.reverse_append, List.mem_reverse] at ha
      exact hput.prev_kept a (hne i a (hsplit ▸ ha)) hlast
  · exact List.nodup_middle.mpr (List.nodup_cons.mpr ⟨hsplit ▸ hd i, hnodup⟩)
  · rw [hput.inst, update_of_ne hj]
  · refine ⟨hput.next_kept a (hne j a ha) fun hlast => ?_,
      hput.prev_kept a (hne j a ha) fun hfirst => ?_⟩
    · exact h.not_mem (hmem a (mem_of_neighbour (.inl hlast))) hj ha
    · exact h.not_mem (hmem a (mem_of_neighbour (.inr hfirst))) hj ha
  · intro a ha haj
    rcases List.mem_cons.mp (List.perm_middle.mem_iff.mp ha) with rfl | ha
    · exact hd j haj
    · exact h.not_mem (hmem a ha) hj haj

omit [DecidableEq α] in
/-- A member has been taken out. -/
theorem take (h : s.Holds L) (hsplit : L i = u ++ d :: v) (htaken : Taken s s' i d u v) :
    s'.Holds (update L i (u ++ v)) := by
  have hnodup := h.nodup i
  have hdesc := h.describes i
  rw [hsplit] at hnodup hdesc
  have hne : ∀ a ∈ u ++ v, a ≠ d := by
    rintro a ha rfl
    exact (List.nodup_cons.mp (List.nodup_middle.mp hnodup)).1 ha
  have hsub : ∀ a ∈ u ++ v, a ∈ L i := fun a ha =>
    hsplit ▸ List.perm_middle.mem_iff.mpr (List.mem_cons_of_mem d ha)
  have hd : d ∈ L i := hsplit ▸ List.mem_append_right u (.head _)
  refine h.replace ⟨⟨?_, ?_, ?_, ?_⟩, ?_⟩ ?_ (fun j hj => ?_) (fun j hj a ha => ?_)
    fun j hj a ha haj => h.not_mem (hsub a ha) hj haj
  · rw [htaken.inst, update_self]
  · rw [htaken.inst, update_self]
  · rw [htaken.inst, update_self]
  · exact hdesc.queue.linked.take hnodup htaken.last fun a ha hlast =>
      htaken.next_kept a (hne a ha) hlast
  · have hback := hdesc.back
    rw [List.reverse_append, List.reverse_cons, List.append_assoc, List.singleton_append] at hback
    rw [List.reverse_append]
    refine hback.take ?_ ?_ ?_
    · rw [← List.singleton_append, ← List.append_assoc, ← List.reverse_cons, ← List.reverse_append]
      exact List.nodup_reverse.mpr hnodup
    · intro t ht
      rw [List.head?_reverse]
      exact htaken.first t (by rwa [List.getLast?_reverse] at ht)
    · intro a ha hlast
      rw [List.getLast?_reverse] at hlast
      rw [← List.reverse_append, List.mem_reverse] at ha
      exact htaken.prev_kept a (hne a ha) hlast
  · exact (List.nodup_cons.mp (List.nodup_middle.mp hnodup)).2
  · rw [htaken.inst, update_of_ne hj]
  · have had : a ≠ d := by
      rintro rfl
      exact h.not_mem hd hj ha
    refine ⟨htaken.next_kept a had fun hlast => ?_, htaken.prev_kept a had fun hfirst => ?_⟩
    · exact h.not_mem (hsub a (mem_of_neighbour (.inl hlast))) hj ha
    · exact h.not_mem (hsub a (mem_of_neighbour (.inr hfirst))) hj ha

/-- A node is put behind a member, or in front of all. -/
theorem add (h : s.Holds L) (hd : ∀ j, d ∉ L j) (hsplit : L i = u ++ v) :
    ∃ s', s.add i u.getLast? d = some s' ∧ s'.Holds (update L i (u ++ d :: v)) := by
  have hqueue := (h.describes i).queue
  have hnodup := h.nodup i
  have hne : ∀ a ∈ L i, a ≠ d := by
    rintro a ha rfl
    exact hd i ha
  rw [hsplit] at hqueue hnodup hne
  have hput : ∃ s', s.add i u.getLast? d = some s' ∧ Put s s' i d u v := by
    rcases List.eq_nil_or_concat u with rfl | ⟨w, p, rfl⟩
    · cases v with
      | nil => exact put_first hqueue.counter _ d
      | cons n v => exact put_front hqueue (hne n (.head _))
    · rw [List.concat_eq_append] at hqueue hnodup hne ⊢
      rw [List.getLast?_concat]
      have hpd : p ≠ d := hne p (by simp)
      cases v with
      | nil =>
        rw [List.append_nil] at hqueue
        exact put_end hqueue hpd
      | cons n v =>
        rw [List.append_assoc, List.singleton_append] at hqueue hnodup
        exact put_between hqueue hnodup hpd (hne n (by simp))
  obtain ⟨s', hadd, hput⟩ := hput
  exact ⟨s', hadd, h.put hd hsplit hput⟩

/-- The first node of a list needs no place. -/
lemma add_nil (h : s.Holds L) (hd : ∀ j, d ∉ L j) (hnil : L i = []) (prev : Option α) :
    ∃ s', s.add i prev d = some s' ∧ s'.Holds (update L i [d]) := by
  have hcounter : (s.inst i).counter = 0 := by
    rw [(h.describes i).queue.counter, hnil]
    rfl
  obtain ⟨s', hadd, hput⟩ := put_first hcounter prev d
  exact ⟨s', hadd, h.put hd (u := []) hnil hput⟩

/-- A member leaves. -/
theorem remove (h : s.Holds L) (hsplit : L i = u ++ d :: v) :
    (s.remove i d).Holds (update L i (u ++ v)) := by
  obtain ⟨hqueue, hback⟩ := h.describes i
  have hnodup := h.nodup i
  rw [hsplit] at hqueue hback hnodup
  have hfresh : d ∉ u ++ v := (List.nodup_cons.mp (List.nodup_middle.mp hnodup)).1
  have hnext : s.next d = v.head? := hqueue.linked.next_eq
  rw [List.reverse_append, List.reverse_cons, List.append_assoc, List.singleton_append] at hback
  have hprev : s.prev d = u.getLast? := by rw [hback.next_eq, List.head?_reverse]
  have hlast : ∀ t, u.getLast? = some t → t ≠ d := by
    rintro t ht rfl
    exact hfresh (List.mem_append_left v (List.mem_of_getLast? ht))
  have hfirst : ∀ t, v.head? = some t → t ≠ d := by
    rintro t ht rfl
    exact hfresh (List.mem_append_right u (List.mem_of_head? ht))
  have hlinks := fun a (had : a ≠ d) =>
    remove_links (s := s) (i := i) (hprev ▸ fun heq => hlast d heq rfl) had
  rw [hnext, hprev] at hlinks
  refine h.take hsplit ⟨?_, fun t ht => ?_, fun t ht => ?_, fun a had hne => ?_,
    fun a had hne => ?_⟩
  · have hhead : (if (u ++ d :: v).head? = some d then v.head? else (u ++ d :: v).head?) =
        (u ++ v).head? := by
      cases u with
      | nil => simp
      | cons a u =>
        have had : a ≠ d := fun heq => hfresh (heq ▸ (.head _))
        simp [had]
    have htail : (if (u ++ d :: v).getLast? = some d then u.getLast? else (u ++ d :: v).getLast?) =
        (u ++ v).getLast? := by
      rcases List.eq_nil_or_concat v with rfl | ⟨w, a, rfl⟩
      · simp
      · have had : a ≠ d := fun heq => hfresh (by simp [heq])
        have hend : ∀ l, (l ++ w.concat a).getLast? = some a := fun l => by
          rw [List.concat_eq_append, ← List.append_assoc, List.getLast?_concat]
        rw [← List.singleton_append, ← List.append_assoc, hend, hend, if_neg (by simpa using had)]
    rw [remove_inst, hnext, hprev, hqueue.head, hqueue.tail, hqueue.counter, hhead, htail]
    simp
  · rw [(hlinks t (hlast t ht)).1, if_pos ht]
  · rw [(hlinks t (hfirst t ht)).2, if_pos ht]
  · rw [(hlinks a had).1, if_neg hne]
  · rw [(hlinks a had).2, if_neg hne]

/-- Lists without nodes. -/
lemma empty {ι α : Type} (prev next : α → Option α) :
    Holds (⟨prev, next, fun _ => .empty⟩ : LinkedLists ι α) fun _ => [] :=
  ⟨fun _ => ⟨⟨rfl, rfl, rfl, trivial⟩, trivial⟩, fun _ => List.nodup_nil,
    fun _ _ _ => List.disjoint_nil_left _⟩

end Holds

end LinkedLists

end DiegOS.Lib
