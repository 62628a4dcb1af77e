import Mathlib.Data.List.Basic
import Mathlib.Data.List.Nodup
import Mathlib.Logic.Function.Basic

/-!
# Families of intrusive queues

Singly linked queues whose nodes carry their own link field, so that one node
can be a member of one queue at a time.  The operations work on heads, tails,
counters and links; an access through a null pointer has no result.  As long as
the queues hold disjoint lists without repetitions, every operation acts on
these lists as its name says.

Main results:

- Theorem `LinkedQueues.Holds.enqueue`: a node outside all queues is
  appended.
- Theorem `LinkedQueues.Holds.dequeue`: the first node leaves.
- Theorem `LinkedQueues.Holds.roll`: the first node becomes the last one.
- Theorem `LinkedQueues.Holds.insert_front` and
  `LinkedQueues.Holds.insert_after`: a node is put in its place.
-/

namespace DiegOS.Lib

open Function

/-- Head, tail and counter of one queue. -/
structure QueueInst (α : Type) where
  head : Option α
  tail : Option α
  counter : Nat
deriving DecidableEq, Repr

/-- The queue without nodes. -/
def QueueInst.empty {α : Type} : QueueInst α := ⟨none, none, 0⟩

/-- Queues indexed by `ι` over nodes that share one link field. -/
structure LinkedQueues (ι α : Type) where
  next : α → Option α
  inst : ι → QueueInst α

namespace LinkedQueues

variable {ι α : Type} [DecidableEq ι] [DecidableEq α]

/-! ## Operations -/

/-- The node at the front. -/
def head (s : LinkedQueues ι α) (i : ι) : Option α := (s.inst i).head

/-- The number of nodes. -/
def count (s : LinkedQueues ι α) (i : ι) : Nat := (s.inst i).counter

/-- Overwrite one link. -/
def setNext (s : LinkedQueues ι α) (a : α) (b : Option α) : LinkedQueues ι α :=
  { s with next := Function.update s.next a b }

/-- Overwrite one queue. -/
def setInst (s : LinkedQueues ι α) (i : ι) (q : QueueInst α) : LinkedQueues ι α :=
  { s with inst := Function.update s.inst i q }

/-- Append a node. -/
def enqueue (s : LinkedQueues ι α) (i : ι) (d : α) : Option (LinkedQueues ι α) :=
  match (s.inst i).head with
  | none => some ((s.setInst i ⟨some d, some d, 1⟩).setNext d none)
  | some h =>
    match (s.inst i).tail with
    | none => none
    | some t =>
      some (((s.setNext t (some d)).setInst i ⟨some h, some d, (s.inst i).counter + 1⟩).setNext
        d none)

/-- Take the first node out; an empty queue gives none. -/
def dequeue (s : LinkedQueues ι α) (i : ι) : Option (Option α × LinkedQueues ι α) :=
  if (s.inst i).counter = 0 then some (none, s)
  else
    match (s.inst i).head with
    | none => none
    | some h =>
      let counter := (s.inst i).counter - 1
      some (some h, (s.setInst i
        ⟨s.next h, if counter = 0 then none else (s.inst i).tail, counter⟩).setNext h none)

/-- Move the first node to the end. -/
def roll (s : LinkedQueues ι α) (i : ι) : Option (LinkedQueues ι α) :=
  if (s.inst i).counter ≤ 1 then some s
  else
    match (s.inst i).head, (s.inst i).tail with
    | some h, some t =>
      let s' := s.setNext t (some h)
      some ((s'.setInst i ⟨s'.next h, some h, (s.inst i).counter⟩).setNext h none)
    | _, _ => none

/-- Put a node behind another one, or in front of all. -/
def insert (s : LinkedQueues ι α) (i : ι) (d : α) (after : Option α) :
    Option (LinkedQueues ι α) :=
  if (s.inst i).counter = 0 then s.enqueue i d
  else
    match after with
    | none =>
      some ((s.setNext d (s.inst i).head).setInst i
        ⟨some d, (s.inst i).tail, (s.inst i).counter + 1⟩)
    | some a =>
      let s' := (s.setNext d (s.next a)).setNext a (some d)
      some (s'.setInst i ⟨(s.inst i).head,
        if s'.next d = none then some d else (s.inst i).tail, (s.inst i).counter + 1⟩)

/-! ## The lists behind the links -/

/-- Every node links to the next one of the list, and the last one to none. -/
def Linked (next : α → Option α) : List α → Prop
  | [] => True
  | a :: l => next a = l.head? ∧ Linked next l

/-- Head, tail, counter and links describe one list. -/
structure Describes (next : α → Option α) (q : QueueInst α) (l : List α) : Prop where
  head : q.head = l.head?
  tail : q.tail = l.getLast?
  counter : q.counter = l.length
  linked : Linked next l

/-- The queues hold disjoint lists without repetitions. -/
structure Holds (s : LinkedQueues ι α) (L : ι → List α) : Prop where
  describes : ∀ i, Describes s.next (s.inst i) (L i)
  nodup : ∀ i, (L i).Nodup
  disjoint : ∀ i j, i ≠ j → (L i).Disjoint (L j)

/-- The nodes met on a walk along the links. -/
def walk (next : α → Option α) : Nat → Option α → List α
  | 0, _ => []
  | _ + 1, none => []
  | n + 1, some a => a :: walk next n (next a)

/-- The nodes met from the head of a queue, as many as it counts. -/
def toList (s : LinkedQueues ι α) (i : ι) : List α := walk s.next (s.count i) (s.head i)

omit [DecidableEq α] in
/-- The walk along a linked list meets the list. -/
lemma Linked.walk {next : α → Option α} {l : List α} (h : Linked next l) :
    walk next l.length l.head? = l := by
  induction l with
  | nil => rfl
  | cons a l ih =>
    rw [List.length_cons, List.head?_cons, LinkedQueues.walk, h.1, ih h.2]

omit [DecidableEq α] in
lemma Linked.congr {next next' : α → Option α} {l : List α} (h : Linked next l)
    (heq : ∀ a ∈ l, next' a = next a) : Linked next' l := by
  induction l with
  | nil => trivial
  | cons a l ih =>
    refine ⟨(heq a (by simp)).trans h.1, ih h.2 fun b hb => heq b (by simp [hb])⟩

omit [DecidableEq α] in
lemma Linked.suffix {next : α → Option α} {l m : List α} (h : Linked next (l ++ m)) :
    Linked next m := by
  induction l with
  | nil => exact h
  | cons a l ih => exact ih h.2

/-- Giving the last node a successor. -/
lemma Linked.append {next : α → Option α} {l m : List α} {b : α} (hl : Linked next l)
    (hm : Linked next (b :: m)) (hdisj : l.Disjoint (b :: m)) (hnodup : l.Nodup) {t : α}
    (ht : l.getLast? = some t) : Linked (update next t (some b)) (l ++ b :: m) := by
  induction l with
  | nil => simp at ht
  | cons a l ih =>
    have hnotin : ∀ x ∈ b :: m, x ≠ t := by
      rintro x hx rfl
      exact hdisj (List.mem_of_getLast? ht) hx
    cases l with
    | nil =>
      obtain rfl : a = t := by simpa using ht
      refine ⟨by simp, hm.congr fun x hx => ?_⟩
      exact update_of_ne (hnotin x hx) _ _
    | cons c l =>
      have ht' : (c :: l).getLast? = some t := by simpa using ht
      have hne : a ≠ t := by
        rintro rfl
        exact (List.nodup_cons.mp hnodup).1 (List.mem_of_getLast? ht')
      have hhead : update next t (some b) a = (c :: l ++ b :: m).head? := by
        rw [update_of_ne hne, hl.1]
        rfl
      refine ⟨hhead, ih hl.2 (fun x hx => ?_) (List.nodup_cons.mp hnodup).2 ht'⟩
      exact hdisj (.tail _ hx)

/-- A node linked in behind a member. -/
lemma Linked.insert {next : α → Option α} {l m : List α} {a d : α}
    (h : Linked next (l ++ a :: m)) (hd : d ∉ l ++ a :: m) (hnodup : (l ++ a :: m).Nodup) :
    Linked (update (update next d (next a)) a (some d))
      (l ++ a :: d :: m) := by
  induction l with
  | nil =>
    have hda : d ≠ a := by
      rintro rfl
      simp at hd
    refine ⟨by simp, by simp [hda, h.1], h.2.congr fun b hb => ?_⟩
    have hba : b ≠ a := by
      rintro rfl
      exact (List.nodup_cons.mp hnodup).1 hb
    have hbd : b ≠ d := by
      rintro rfl
      exact hd (by simp [hb])
    simp [hba, hbd]
  | cons c l ih =>
    have hca : c ≠ a := by
      rintro rfl
      exact (List.nodup_cons.mp hnodup).1 (by simp)
    have hcd : c ≠ d := by
      rintro rfl
      exact hd (by simp)
    refine ⟨?_, ih h.2 (fun hmem => hd (.tail _ hmem))
      (List.nodup_cons.mp hnodup).2⟩
    rw [update_of_ne hca, update_of_ne hcd, h.1]
    cases l <;> rfl

section Update

variable {L : ι → List α} {i : ι} {l : List α}

omit [DecidableEq α] in
lemma update_nodup (h : ∀ j, (L j).Nodup) (hnodup : l.Nodup) (j : ι) :
    (update L i l j).Nodup := by
  by_cases hj : j = i
  · subst hj
    rwa [update_self]
  · rw [update_of_ne hj]
    exact h j

omit [DecidableEq α] in
lemma update_disjoint (h : ∀ j k, j ≠ k → (L j).Disjoint (L k))
    (hdisj : ∀ j, j ≠ i → l.Disjoint (L j)) (j k : ι) (hjk : j ≠ k) :
    (update L i l j).Disjoint (update L i l k) := by
  by_cases hj : j = i
  · subst hj
    rw [update_self, update_of_ne (Ne.symm hjk)]
    exact hdisj k (Ne.symm hjk)
  · by_cases hk : k = i
    · subst hk
      rw [update_self, update_of_ne hjk]
      exact fun a ha hb => hdisj j hjk hb ha
    · rw [update_of_ne hj, update_of_ne hk]
      exact h j k hjk

end Update

namespace Holds

variable {s s' : LinkedQueues ι α} {L : ι → List α} {i : ι} {d : α}

omit [DecidableEq α] in
/-- One queue changes, the others keep their nodes and links. -/
lemma replace (h : s.Holds L) {l : List α} (hdesc : Describes s'.next (s'.inst i) l)
    (hnodup : l.Nodup) (hinst : ∀ j, j ≠ i → s'.inst j = s.inst j)
    (hnext : ∀ j, j ≠ i → ∀ a ∈ L j, s'.next a = s.next a)
    (hdisj : ∀ j, j ≠ i → l.Disjoint (L j)) : s'.Holds (update L i l) where
  describes := by
    intro j
    by_cases hj : j = i
    · subst hj
      simpa using hdesc
    · have hold := h.describes j
      rw [update_of_ne hj, hinst j hj]
      exact ⟨hold.head, hold.tail, hold.counter, hold.linked.congr (hnext j hj)⟩
  nodup := update_nodup h.nodup hnodup
  disjoint := update_disjoint h.disjoint hdisj

omit [DecidableEq ι] in
/-- A node in no queue may be relinked. -/
lemma setNext (h : s.Holds L) (hd : ∀ j, d ∉ L j) (b : Option α) : (s.setNext d b).Holds L where
  describes := by
    intro j
    have hold := h.describes j
    refine ⟨hold.head, hold.tail, hold.counter, hold.linked.congr fun a ha => ?_⟩
    exact update_of_ne (fun heq => hd j (by rwa [← heq])) _ _
  nodup := h.nodup
  disjoint := h.disjoint

omit [DecidableEq ι] [DecidableEq α] in
lemma head (h : s.Holds L) : s.head i = (L i).head? := (h.describes i).head

omit [DecidableEq ι] [DecidableEq α] in
lemma count (h : s.Holds L) : s.count i = (L i).length := (h.describes i).counter

omit [DecidableEq ι] [DecidableEq α] in
/-- The lists of the queues are those met from their heads. -/
lemma toList (h : s.Holds L) : s.toList i = L i := by
  rw [LinkedQueues.toList, h.head, h.count, (h.describes i).linked.walk]

omit [DecidableEq ι] [DecidableEq α] in
/-- The queues hold no other lists. -/
lemma unique (h : s.Holds L) {L' : ι → List α} (h' : s.Holds L') : L' = L :=
  funext fun _ => h'.toList.symm.trans h.toList

omit [DecidableEq ι] [DecidableEq α] in
/-- Other queues do not see a node of this one. -/
lemma not_mem (h : s.Holds L) {a : α} (ha : a ∈ L i) {j : ι} (hj : j ≠ i) : a ∉ L j :=
  fun haj => h.disjoint j i hj haj ha

/-- A node outside all queues is appended. -/
theorem enqueue (h : s.Holds L) (hd : ∀ j, d ∉ L j) :
    ∃ s', s.enqueue i d = some s' ∧ s'.Holds (update L i (L i ++ [d])) := by
  have hdesc := h.describes i
  have hnodup : (L i ++ [d]).Nodup := by
    rw [List.nodup_append]
    exact ⟨h.nodup i, by simp, fun a ha b hb => by rintro rfl; simp_all⟩
  have hdisj : ∀ j, j ≠ i → (L i ++ [d]).Disjoint (L j) := by
    intro j hj a ha haj
    rcases List.mem_append.mp ha with ha | ha
    · exact h.disjoint i j (Ne.symm hj) ha haj
    · obtain rfl : a = d := by simpa using ha
      exact hd j haj
  have hne : ∀ j, ∀ a ∈ L j, a ≠ d := by
    rintro j a ha rfl
    exact hd j ha
  rcases List.eq_nil_or_concat (L i) with hnil | ⟨l, t, hl⟩
  · have hhead : (s.inst i).head = none := by rw [hdesc.head, hnil]; rfl
    refine ⟨_, by rw [LinkedQueues.enqueue, hhead], ?_⟩
    refine h.replace ?_ hnodup (fun j hj => ?_) (fun j hj a ha => ?_) hdisj
    · rw [hnil]
      refine ⟨?_, ?_, ?_, ?_, trivial⟩ <;>
        simp [LinkedQueues.setNext, setInst]
    · simp [LinkedQueues.setNext, setInst, hj]
    · simp [LinkedQueues.setNext, setInst, hne j a ha]
  · have hlast : (L i).getLast? = some t := by simp [hl]
    have htmem : t ∈ L i := List.mem_of_getLast? hlast
    obtain ⟨f, hf⟩ : ∃ f, (L i).head? = some f := by
      rw [List.concat_eq_append] at hl
      cases l with
      | nil => exact ⟨t, by simp [hl]⟩
      | cons f l => exact ⟨f, by simp [hl]⟩
    have hhead : (s.inst i).head = some f := hdesc.head.trans hf
    have htail : (s.inst i).tail = some t := hdesc.tail.trans hlast
    refine ⟨_, by rw [LinkedQueues.enqueue, hhead]; dsimp only; rw [htail], ?_⟩
    have hlinks : Linked (update (update s.next t (some d)) d none)
        (L i ++ [d]) := by
      rw [Function.update_comm (hne i t htmem)]
      refine Linked.append (m := []) (hdesc.linked.congr fun a ha => ?_) ⟨by simp, trivial⟩ ?_
        (h.nodup i) hlast
      · exact update_of_ne (hne i a ha) _ _
      · intro a ha had
        exact hne i a ha (by simpa using had)
    refine h.replace ?_ hnodup (fun j hj => ?_) (fun j hj a ha => ?_) hdisj
    · refine ⟨?_, ?_, ?_, hlinks⟩
      · simp [LinkedQueues.setNext, setInst, hf]
      · simp [LinkedQueues.setNext, setInst]
      · simp [LinkedQueues.setNext, setInst, hdesc.counter]
    · simp [LinkedQueues.setNext, setInst, hj]
    · have hat : a ≠ t := by
        rintro rfl
        exact h.not_mem htmem hj ha
      simp [LinkedQueues.setNext, setInst, hne j a ha, hat]

/-- An empty queue gives nothing. -/
lemma dequeue_nil (h : s.Holds L) (hnil : L i = []) : s.dequeue i = some (none, s) := by
  rw [LinkedQueues.dequeue, if_pos]
  rw [(h.describes i).counter, hnil]
  rfl

omit [DecidableEq ι] [DecidableEq α] in
/-- A queue with a first node. -/
lemma front (h : s.Holds L) {l : List α} (hcons : L i = d :: l) :
    (s.inst i).counter = l.length + 1 ∧ (s.inst i).head = some d ∧ Linked s.next (d :: l) ∧
      d ∉ l ∧ l.Nodup := by
  obtain ⟨hhead, -, hcounter, hlinked⟩ := h.describes i
  have hnodup := h.nodup i
  rw [hcons] at hhead hcounter hlinked hnodup
  exact ⟨hcounter, hhead, hlinked, List.nodup_cons.mp hnodup⟩

/-- The first node leaves the queue. -/
theorem dequeue (h : s.Holds L) {l : List α} (hcons : L i = d :: l) :
    ∃ s', s.dequeue i = some (some d, s') ∧ s'.Holds (update L i l) ∧
      ∀ j, d ∉ update L i l j := by
  have hdesc := h.describes i
  obtain ⟨hcounter, hhead, hlinked, hnodup⟩ := h.front hcons
  refine ⟨_, by rw [LinkedQueues.dequeue, if_neg (by omega), hhead], ?_, fun j hdj => ?_⟩
  · refine h.replace ?_ hnodup.2 (fun j hj => ?_) (fun j hj a ha => ?_) (fun j hj a ha => ?_)
    · have hlinks : Linked (update s.next d none) l :=
        hlinked.2.congr fun a ha => update_of_ne (by rintro rfl; exact hnodup.1 ha) _ _
      refine ⟨?_, ?_, ?_, hlinks⟩
      · simp [LinkedQueues.setNext, setInst, hlinked.1]
      · have htail := hdesc.tail
        rw [hcons] at htail
        cases l with
        | nil => simp [LinkedQueues.setNext, setInst, hcounter]
        | cons b l => simpa [LinkedQueues.setNext, setInst, hcounter] using htail
      · simp [LinkedQueues.setNext, setInst, hcounter]
    · simp [LinkedQueues.setNext, setInst, hj]
    · have had : a ≠ d := by
        rintro rfl
        exact h.not_mem (i := i) (by simp [hcons]) hj ha
      simp [LinkedQueues.setNext, setInst, had]
    · exact h.disjoint i j (Ne.symm hj) (by simp [hcons, ha])
  · by_cases hj : j = i
    · subst hj
      rw [update_self] at hdj
      exact hnodup.1 hdj
    · rw [update_of_ne hj] at hdj
      exact h.not_mem (i := i) (by simp [hcons]) hj hdj

/-- The first node becomes the last one. -/
theorem roll (h : s.Holds L) {l : List α} (hcons : L i = d :: l) :
    ∃ s', s.roll i = some s' ∧ s'.Holds (update L i (l ++ [d])) := by
  have hdesc := h.describes i
  obtain ⟨hcounter, hhead, hlinked, hnodup⟩ := h.front hcons
  rcases List.eq_nil_or_concat l with rfl | ⟨m, t, hl⟩
  · refine ⟨s, by rw [LinkedQueues.roll, if_pos (by simp [hcounter])], ?_⟩
    rw [List.nil_append, ← hcons, update_eq_self]
    exact h
  · have hlast : l.getLast? = some t := by simp [hl]
    have htmem : t ∈ l := List.mem_of_getLast? hlast
    have htd : d ≠ t := by
      rintro rfl
      exact hnodup.1 htmem
    have htail : (s.inst i).tail = some t := by
      rw [hdesc.tail, hcons, List.getLast?_cons, hlast]
      rfl
    have hlen : 0 < l.length := List.length_pos_of_mem htmem
    refine ⟨_, by rw [LinkedQueues.roll, if_neg (by omega), hhead, htail], ?_⟩
    refine h.replace ?_ ?_ (fun j hj => ?_) (fun j hj a ha => ?_) (fun j hj a ha => ?_)
    · have hlinks : Linked (update (update s.next t (some d)) d none)
          (l ++ [d]) := by
        rw [Function.update_comm (Ne.symm htd)]
        refine Linked.append (m := []) (hlinked.2.congr fun a ha => ?_) ⟨by simp, trivial⟩ ?_
          hnodup.2 hlast
        · exact update_of_ne (by rintro rfl; exact hnodup.1 ha) _ _
        · intro a ha had
          obtain rfl : a = d := by simpa using had
          exact hnodup.1 ha
      refine ⟨?_, ?_, ?_, hlinks⟩
      · have hnext : s.next d = (l ++ [d]).head? := by
          rw [hlinked.1, List.head?_append_of_ne_nil _ (List.ne_nil_of_mem htmem)]
        simp only [LinkedQueues.setNext, setInst, update_self, update_of_ne htd]
        exact hnext
      · simp [LinkedQueues.setNext, setInst]
      · simp [LinkedQueues.setNext, setInst, hcounter]
    · rw [List.nodup_append]
      exact ⟨hnodup.2, by simp, fun a ha b hb => by rintro rfl; simp_all⟩
    · simp [LinkedQueues.setNext, setInst, hj]
    · have had : a ≠ d := by
        rintro rfl
        exact h.not_mem (i := i) (by simp [hcons]) hj ha
      have hat : a ≠ t := by
        rintro rfl
        exact h.not_mem (i := i) (by simp [hcons, htmem]) hj ha
      simp [LinkedQueues.setNext, setInst, had, hat]
    · refine h.disjoint i j (Ne.symm hj) ?_
      rw [hcons]
      rcases List.mem_append.mp ha with ha | ha
      · exact .tail _ ha
      · simp_all

lemma roll_nil (h : s.Holds L) (hnil : L i = []) : s.roll i = some s := by
  rw [LinkedQueues.roll, if_pos]
  rw [(h.describes i).counter, hnil]
  exact Nat.zero_le _

/-- A node is put in front of all. -/
theorem insert_front (h : s.Holds L) (hd : ∀ j, d ∉ L j) :
    ∃ s', s.insert i d none = some s' ∧ s'.Holds (update L i (d :: L i)) := by
  have hdesc := h.describes i
  cases hcons : L i with
  | nil =>
    obtain ⟨s', hs', hholds⟩ := h.enqueue (i := i) hd
    rw [hcons] at hholds
    refine ⟨s', ?_, hholds⟩
    rw [LinkedQueues.insert, if_pos (by rw [hdesc.counter, hcons]; rfl), hs']
  | cons f l =>
    have hcounter : (s.inst i).counter = (L i).length := hdesc.counter
    have hne : ∀ j, ∀ a ∈ L j, a ≠ d := by
      rintro j a ha rfl
      exact hd j ha
    rw [← hcons]
    refine ⟨_, by rw [LinkedQueues.insert, if_neg (by rw [hcounter, hcons]; simp)], ?_⟩
    refine h.replace ?_ (List.nodup_cons.mpr ⟨hd i, h.nodup i⟩) (fun j hj => ?_)
      (fun j hj a ha => ?_) (fun j hj a ha haj => ?_)
    · refine ⟨?_, ?_, ?_, ?_, hdesc.linked.congr fun a ha => ?_⟩
      · simp [LinkedQueues.setNext, setInst]
      · have htail := hdesc.tail
        simp only [LinkedQueues.setNext, setInst, update_self]
        rw [htail, hcons]
        simp
      · simp [LinkedQueues.setNext, setInst, hcounter]
      · simp [LinkedQueues.setNext, setInst, hdesc.head]
      · simp [LinkedQueues.setNext, setInst, hne i a ha]
    · simp [LinkedQueues.setNext, setInst, hj]
    · simp [LinkedQueues.setNext, setInst, hne j a ha]
    · rcases List.mem_cons.mp ha with rfl | ha
      · exact hd j haj
      · exact h.disjoint i j (Ne.symm hj) ha haj

/-- A node is put behind a member. -/
theorem insert_after (h : s.Holds L) (hd : ∀ j, d ∉ L j) {a : α} {l m : List α}
    (hsplit : L i = l ++ a :: m) :
    ∃ s', s.insert i d (some a) = some s' ∧
      s'.Holds (update L i (l ++ a :: d :: m)) := by
  have hdesc := h.describes i
  have hne : ∀ j, ∀ b ∈ L j, b ≠ d := by
    rintro j b hb rfl
    exact hd j hb
  have hda : d ≠ a := (hne i a (by simp [hsplit])).symm
  have hcounter : (s.inst i).counter = (L i).length := hdesc.counter
  have hlinked := hdesc.linked
  have hnodup := h.nodup i
  have hdi := hd i
  rw [hsplit] at hlinked hnodup hdi
  have hlinks := hlinked.insert hdi hnodup
  have hnexta : s.next a = m.head? := by
    have hsuffix : Linked s.next (a :: m) := hlinked.suffix
    exact hsuffix.1
  refine ⟨_, by rw [LinkedQueues.insert, if_neg (by rw [hcounter, hsplit]; simp)], ?_⟩
  refine h.replace ?_ ?_ (fun j hj => ?_) (fun j hj b hb => ?_) (fun j hj b hb hbj => ?_)
  · refine ⟨?_, ?_, ?_, hlinks⟩
    · simp only [LinkedQueues.setNext, setInst, update_self]
      rw [hdesc.head, hsplit]
      cases l <;> rfl
    · simp only [LinkedQueues.setNext, setInst, update_self, update_of_ne hda]
      rw [hnexta, hdesc.tail, hsplit]
      cases m with
      | nil | cons b m => simp
    · simp only [LinkedQueues.setNext, setInst, update_self]
      rw [hcounter, hsplit]
      simp
      omega
  · have hperm : (l ++ a :: d :: m).Perm (d :: (l ++ a :: m)) := by
      simpa using @List.perm_middle _ d (l ++ [a]) m
    exact hperm.nodup_iff.mpr (List.nodup_cons.mpr ⟨hdi, hnodup⟩)
  · simp [LinkedQueues.setNext, setInst, hj]
  · have hba : b ≠ a := by
      rintro rfl
      exact h.not_mem (i := i) (by simp [hsplit]) hj hb
    simp [LinkedQueues.setNext, setInst, hba, hne j b hb]
  · by_cases hbd : b = d
    · subst hbd
      exact hd j hbj
    · refine h.disjoint i j (Ne.symm hj) ?_ hbj
      rw [hsplit]
      simp only [List.mem_append, List.mem_cons] at hb ⊢
      tauto

/-- Queues without nodes. -/
lemma empty {ι α : Type} (next : α → Option α) :
    Holds (⟨next, fun _ => .empty⟩ : LinkedQueues ι α) fun _ => [] :=
  ⟨fun _ => ⟨rfl, rfl, rfl, trivial⟩, fun _ => List.nodup_nil,
    fun _ _ _ => List.disjoint_nil_left _⟩

end Holds

omit [DecidableEq α] in
/-- A node is met on the walk if no link before it has changed. -/
lemma Linked.mem_of_congr {next next' : α → Option α} {d : α} {l : List α} :
    ∀ {l' : List α}, Linked next l → Linked next' l' → l'.head? = l.head? →
      l'.length = l.length → (∀ a ∈ l, a ≠ d → next' a = next a) → d ∈ l → d ∈ l' := by
  induction l with
  | nil => simp
  | cons a m ih =>
    intro l' hlinked hlinked' hhead hlength hsame hd
    obtain ⟨m', rfl⟩ : ∃ m', l' = a :: m' := by
      cases l' with
      | nil => simp at hhead
      | cons b m' => exact ⟨m', by simpa using hhead⟩
    by_cases had : a = d
    · simp [had]
    · have hnext := hsame a (by simp) had
      rw [hlinked.1, hlinked'.1] at hnext
      have hmem := ih hlinked.2 hlinked'.2 hnext (by simpa using hlength)
        (fun b hb => hsame b (.tail _ hb))
        ((List.mem_cons.mp hd).resolve_left (Ne.symm had))
      exact .tail _ hmem

/-- A node that is in one queue cannot be appended to another one. -/
lemma Holds.not_enqueue {s s' : LinkedQueues ι α} {L L' : ι → List α} {i j : ι} {d : α}
    (h : s.Holds L) (hd : d ∈ L j) (hij : j ≠ i) (henq : s.enqueue i d = some s') :
    ¬s'.Holds L' := by
  intro h'
  obtain ⟨htail, hinst, hnext⟩ : (s'.inst i).tail = some d ∧ s'.inst j = s.inst j ∧
      ∀ a ∈ L j, a ≠ d → s'.next a = s.next a := by
    unfold LinkedQueues.enqueue at henq
    split at henq
    · cases henq
      refine ⟨?_, ?_, ?_⟩
      · simp [LinkedQueues.setNext, setInst]
      · simp [LinkedQueues.setNext, setInst, hij]
      intro a _ had
      simp [LinkedQueues.setNext, setInst, had]
    · split at henq
      · contradiction
      · next t ht =>
          cases henq
          refine ⟨?_, ?_, ?_⟩
          · simp [LinkedQueues.setNext, setInst]
          · simp [LinkedQueues.setNext, setInst, hij]
          intro a ha had
          have hat : a ≠ t := by
            rintro rfl
            have hlast : (L i).getLast? = some a := (h.describes i).tail.symm.trans ht
            exact h.not_mem ha (Ne.symm hij) (List.mem_of_getLast? hlast)
          simp [LinkedQueues.setNext, setInst, had, hat]
  have hdi : d ∈ L' i := List.mem_of_getLast? ((h'.describes i).tail.symm.trans htail)
  have hdj : d ∈ L' j := by
    have hdesc := h'.describes j
    rw [hinst] at hdesc
    refine (h.describes j).linked.mem_of_congr hdesc.linked ?_ ?_ hnext hd
    · exact hdesc.head.symm.trans (h.describes j).head
    · exact hdesc.counter.symm.trans (h.describes j).counter
  exact h'.not_mem hdj (Ne.symm hij) hdi

end LinkedQueues

end DiegOS.Lib
