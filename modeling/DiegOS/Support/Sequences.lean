import DiegOS.Lib.LinkedLists
import DiegOS.Support.Words

/-!
# Queues and lists as sequences

`queue.c` and `list.c` with the inline functions of their headers: the tests of the
arguments and the return codes around the changes of links.  There are any numbers of queues and
lists; a null pointer is `none`.

Main results:

- Theorem `step_represents`: what one call does to the sequences.
- Theorem `step_of_error`: a call that reports an error changes nothing.
- Theorem `sequences_refined`: the calls of a run, one after the other.
-/

namespace DiegOS.Support.Sequences

open Lib Function

variable {ι α κ β : Type} [DecidableEq ι] [DecidableEq α] [DecidableEq κ] [DecidableEq β]

/-! ## The code -/

def queueEnqueue (s : LinkedQueues ι α) : Option ι → Option α → Option (LinkedQueues ι α × Status)
  | some queue, some data => (s.enqueue queue data).map fun s => (s, .EOK)
  | _, _ => some (s, .EINVAL)

/-- `queue_dequeue`; the flag says that `data` is not `NULL`, the last component is
what is stored there. -/
def queueDequeue (s : LinkedQueues ι α) :
    Option ι → Bool → Option (LinkedQueues ι α × Status × Option (Option α))
  | some queue, true =>
    (s.dequeue queue).map fun (data, s) => (s, if data.isNone then .EAGAIN else .EOK, some data)
  | _, _ => some (s, .EINVAL, none)

def queueRoll (s : LinkedQueues ι α) : Option ι → Option (LinkedQueues ι α × Status)
  | some queue => (s.roll queue).map fun s => (s, .EOK)
  | none => some (s, .EINVAL)

def queueInsert (s : LinkedQueues ι α) (queue : Option ι) (data after : Option α) :
    Option (LinkedQueues ι α × Status) :=
  match queue, data with
  | some queue, some data => (s.insert queue data after).map fun s => (s, .EOK)
  | _, _ => some (s, .EINVAL)

def listAdd (s : LinkedLists κ β) (list : Option κ) (prev data : Option β) :
    Option (LinkedLists κ β × Status) :=
  match list, data with
  | some list, some data => (s.add list prev data).map fun s => (s, .EOK)
  | _, _ => some (s, .EINVAL)

def listPrepend (s : LinkedLists κ β) (list : Option κ) (data : Option β) :
    Option (LinkedLists κ β × Status) :=
  listAdd s list none data

/-- `list_append`, which reads the tail of the list before anything is tested. -/
def listAppend (s : LinkedLists κ β) (list : Option κ) (data : Option β) :
    Option (LinkedLists κ β × Status) :=
  list.bind fun i => listAdd s list (s.inst i).tail data

def listRemove (s : LinkedLists κ β) : Option κ → Option β → LinkedLists κ β × Status
  | some list, some data =>
    if (s.inst list).counter = 0 then (s, .EINVAL) else (s.remove list data, .EOK)
  | _, _ => (s, .EINVAL)

/-- All queues and lists. -/
structure Memory (ι α κ β : Type) where
  queues : LinkedQueues ι α
  lists : LinkedLists κ β

/-- The calls of both interfaces. -/
inductive Call (ι α κ β : Type) where
  | enqueue (queue : Option ι) (data : Option α)
  | dequeue (queue : Option ι) (data : Bool)
  | roll (queue : Option ι)
  | insert (queue : Option ι) (data after : Option α)
  | add (list : Option κ) (prev data : Option β)
  | prepend (list : Option κ) (data : Option β)
  | append (list : Option κ) (data : Option β)
  | remove (list : Option κ) (data : Option β)

/-- What a call answers: the return code and what `queue_dequeue` stores. -/
abbrev Answer (α : Type) := Status × Option (Option α)

/-- One call. -/
def step (m : Memory ι α κ β) : Call ι α κ β → Option (Memory ι α κ β × Answer α)
  | .enqueue queue data =>
    (queueEnqueue m.queues queue data).map fun (s, e) => ({ m with queues := s }, e, none)
  | .dequeue queue data =>
    (queueDequeue m.queues queue data).map fun (s, e, d) => ({ m with queues := s }, e, d)
  | .roll queue => (queueRoll m.queues queue).map fun (s, e) => ({ m with queues := s }, e, none)
  | .insert queue data after =>
    (queueInsert m.queues queue data after).map fun (s, e) => ({ m with queues := s }, e, none)
  | .add list prev data =>
    (listAdd m.lists list prev data).map fun (s, e) => ({ m with lists := s }, e, none)
  | .prepend list data =>
    (listPrepend m.lists list data).map fun (s, e) => ({ m with lists := s }, e, none)
  | .append list data =>
    (listAppend m.lists list data).map fun (s, e) => ({ m with lists := s }, e, none)
  | .remove list data =>
    let (s, e) := listRemove m.lists list data
    some ({ m with lists := s }, e, none)

/-- Calls one after the other. -/
def run (m : Memory ι α κ β) :
    List (Call ι α κ β) → Option (Memory ι α κ β × List (Answer α))
  | [] => some (m, [])
  | c :: calls =>
    (step m c).bind fun (m, a) => (run m calls).map fun (m, answers) => (m, a :: answers)

/-! ## Sequences -/

/-- The sequences of all queues and lists. -/
structure Contents (ι α κ β : Type) where
  queues : ι → List α
  lists : κ → List β

/-- A sequence with a new member behind another one, or in front of all. -/
def place (d : α) : Option α → List α → List α
  | none, l => d :: l
  | some _, [] => [d]
  | some a, b :: l => if b = a then b :: d :: l else b :: place d (some a) l

/-- A sequence whose first member has become the last one. -/
def rolled : List α → List α
  | [] => []
  | a :: l => l ++ [a]

/-- What a call means. -/
def meaning (C : Contents ι α κ β) : Call ι α κ β → Contents ι α κ β × Answer α
  | .enqueue (some i) (some d) =>
    ({ C with queues := Function.update C.queues i (C.queues i ++ [d]) }, .EOK, none)
  | .dequeue (some i) true =>
    match C.queues i with
    | [] => (C, .EAGAIN, some none)
    | d :: l => ({ C with queues := Function.update C.queues i l }, .EOK, some (some d))
  | .roll (some i) =>
    ({ C with queues := Function.update C.queues i (rolled (C.queues i)) }, .EOK, none)
  | .insert (some i) (some d) after =>
    ({ C with queues := Function.update C.queues i (place d after (C.queues i)) }, .EOK, none)
  | .add (some i) prev (some d) =>
    ({ C with lists := Function.update C.lists i (place d prev (C.lists i)) }, .EOK, none)
  | .prepend (some i) (some d) =>
    ({ C with lists := Function.update C.lists i (d :: C.lists i) }, .EOK, none)
  | .append (some i) (some d) =>
    ({ C with lists := Function.update C.lists i (C.lists i ++ [d]) }, .EOK, none)
  | .remove (some i) (some d) =>
    if C.lists i = [] then (C, .EINVAL, none)
    else ({ C with lists := Function.update C.lists i ((C.lists i).erase d) }, .EOK, none)
  | _ => (C, .EINVAL, none)

/-- A place in a sequence: in front of all, behind a member, or anything if there are none. -/
def IsPlace (after : Option α) (l : List α) : Prop := ∀ a, after = some a → a ∈ l ∨ l = []

/-- A node that is put somewhere is no member yet, and a node that is named is a member.  Null
pointers are allowed but for the list of `list_append`. -/
def Allowed (C : Contents ι α κ β) : Call ι α κ β → Prop
  | .enqueue (some _) (some d) => ∀ j, d ∉ C.queues j
  | .insert (some i) (some d) after => (∀ j, d ∉ C.queues j) ∧ IsPlace after (C.queues i)
  | .add (some i) prev (some d) => (∀ j, d ∉ C.lists j) ∧ IsPlace prev (C.lists i)
  | .prepend (some _) (some d) => ∀ j, d ∉ C.lists j
  | .append (some _) (some d) => ∀ j, d ∉ C.lists j
  | .append none _ => False
  | .remove (some i) (some d) => d ∈ C.lists i ∨ C.lists i = []
  | _ => True

/-- Calls that are allowed one after the other. -/
def AllowedRun (C : Contents ι α κ β) : List (Call ι α κ β) → Prop
  | [] => True
  | c :: calls => Allowed C c ∧ AllowedRun (meaning C c).1 calls

/-- What calls mean one after the other. -/
def meanings (C : Contents ι α κ β) : List (Call ι α κ β) → Contents ι α κ β × List (Answer α)
  | [] => (C, [])
  | c :: calls =>
    let (C', answers) := meanings (meaning C c).1 calls
    (C', (meaning C c).2 :: answers)

/-- Heads, tails, counters and links are those of the sequences. -/
structure Represents (m : Memory ι α κ β) (C : Contents ι α κ β) : Prop where
  queues : m.queues.Holds C.queues
  lists : m.lists.Holds C.lists

/-! ## One call -/

section Step

variable {m m' : Memory ι α κ β} {C : Contents ι α κ β} {s : LinkedQueues ι α}
  {t : LinkedLists κ β} {L : ι → List α} {M : κ → List β} {i : ι} {j : κ} {d a : α} {b : β}
  {l u v : List α} {after : Option α}

omit [DecidableEq ι] [DecidableEq κ] [DecidableEq β] in
@[simp]
lemma place_none (d : α) (l : List α) : place d none l = d :: l := by
  cases l <;> rfl

omit [DecidableEq ι] [DecidableEq κ] [DecidableEq β] in
lemma place_middle (h : a ∉ u) (v : List α) :
    place d (some a) (u ++ a :: v) = u ++ a :: d :: v := by
  induction u with
  | nil => exact if_pos rfl
  | cons b u ih =>
    rw [List.mem_cons, not_or] at h
    rw [List.cons_append, place, if_neg (Ne.symm h.1), ih h.2]
    rfl

/-- A place parts the sequence. -/
lemma exists_place (d : α) (h : IsPlace after l) :
    ∃ u v, l = u ++ v ∧ place d after l = u ++ d :: v ∧ (after = u.getLast? ∨ l = []) := by
  cases after with
  | none => exact ⟨[], l, rfl, place_none d l, .inl rfl⟩
  | some a =>
    rcases h a rfl with ha | rfl
    · obtain ⟨u, v, rfl, hu⟩ := List.eq_append_cons_of_mem ha
      refine ⟨u ++ [a], v, ?_, ?_, .inl ?_⟩
      · rw [List.append_assoc, List.singleton_append]
      · rw [place_middle hu, List.append_assoc, List.singleton_append]
      · rw [List.getLast?_concat]
    · exact ⟨[], [], rfl, rfl, .inr rfl⟩

lemma insert_place (h : s.Holds L) (hd : ∀ j, d ∉ L j) (hplace : IsPlace after (L i)) :
    ∃ s', s.insert i d after = some s' ∧
      s'.Holds (update L i (place d after (L i))) := by
  cases after with
  | none =>
    rw [place_none]
    exact h.insert_front hd
  | some a =>
    rcases hplace a rfl with ha | hnil
    · obtain ⟨u, v, hsplit, hu⟩ := List.eq_append_cons_of_mem ha
      rw [hsplit, place_middle hu]
      exact h.insert_after hd hsplit
    · have hcounter : (s.inst i).counter = 0 := by
        rw [(h.describes i).counter, hnil]
        rfl
      obtain ⟨s', henqueue, hholds⟩ := h.enqueue (i := i) hd
      rw [hnil] at hholds ⊢
      exact ⟨s', (if_pos hcounter).trans henqueue, hholds⟩

lemma add_place {d : β} {prev : Option β} (h : t.Holds M) (hd : ∀ j, d ∉ M j)
    (hplace : IsPlace prev (M j)) :
    ∃ t', t.add j prev d = some t' ∧ t'.Holds (update M j (place d prev (M j))) := by
  obtain ⟨u, v, hsplit, hplaced, hprev⟩ := exists_place d hplace
  rw [hplaced]
  rcases hprev with rfl | hnil
  · exact h.add hd hsplit
  · obtain ⟨rfl, rfl⟩ := List.append_eq_nil_iff.mp (hsplit.symm.trans hnil)
    exact h.add_nil hd hnil prev

lemma remove_member (h : t.Holds M) (hb : b ∈ M j) :
    (t.remove j b).Holds (update M j ((M j).erase b)) := by
  obtain ⟨u, v, hsplit, hu⟩ := List.eq_append_cons_of_mem hb
  have herase : (M j).erase b = u ++ v := by
    rw [hsplit, List.erase_append_right _ hu, List.erase_cons_head]
  rw [herase]
  exact h.remove hsplit

lemma roll_rolled (h : s.Holds L) :
    ∃ s', s.roll i = some s' ∧ s'.Holds (update L i (rolled (L i))) := by
  cases hl : L i with
  | nil =>
    refine ⟨s, h.roll_nil hl, ?_⟩
    rw [rolled, ← hl, update_eq_self]
    exact h
  | cons a l => exact h.roll hl

/-- What one call does to the sequences. -/
theorem step_represents (h : Represents m C) {c : Call ι α κ β} (hallowed : Allowed C c) :
    ∃ m', step m c = some (m', (meaning C c).2) ∧ Represents m' (meaning C c).1 := by
  obtain ⟨hqueues, hlists⟩ := h
  cases c with
  | enqueue queue data =>
    cases queue with
    | none => exact ⟨m, rfl, hqueues, hlists⟩
    | some i =>
      cases data with
      | none => exact ⟨m, rfl, hqueues, hlists⟩
      | some d =>
        obtain ⟨s', hs', hholds⟩ := hqueues.enqueue (i := i) hallowed
        exact ⟨{ m with queues := s' }, by rw [step, queueEnqueue, hs']; rfl, hholds, hlists⟩
  | dequeue queue data =>
    cases queue with
    | none => exact ⟨m, rfl, hqueues, hlists⟩
    | some i =>
      cases data with
      | false => exact ⟨m, rfl, hqueues, hlists⟩
      | true =>
        rw [step, queueDequeue, meaning]
        cases hl : C.queues i with
        | nil =>
          rw [hqueues.dequeue_nil hl]
          exact ⟨m, rfl, hqueues, hlists⟩
        | cons d l =>
          obtain ⟨s', hs', hholds, -⟩ := hqueues.dequeue hl
          rw [hs']
          exact ⟨{ m with queues := s' }, rfl, hholds, hlists⟩
  | roll queue =>
    cases queue with
    | none => exact ⟨m, rfl, hqueues, hlists⟩
    | some i =>
      obtain ⟨s', hs', hholds⟩ := roll_rolled (i := i) hqueues
      exact ⟨{ m with queues := s' }, by rw [step, queueRoll, hs']; rfl, hholds, hlists⟩
  | insert queue data after =>
    cases queue with
    | none => exact ⟨m, rfl, hqueues, hlists⟩
    | some i =>
      cases data with
      | none => exact ⟨m, rfl, hqueues, hlists⟩
      | some d =>
        obtain ⟨s', hs', hholds⟩ := insert_place hqueues hallowed.1 hallowed.2
        exact ⟨{ m with queues := s' }, by rw [step, queueInsert, hs']; rfl, hholds, hlists⟩
  | add list prev data =>
    cases list with
    | none => exact ⟨m, rfl, hqueues, hlists⟩
    | some i =>
      cases data with
      | none => exact ⟨m, rfl, hqueues, hlists⟩
      | some d =>
        obtain ⟨t', ht', hholds⟩ := add_place hlists hallowed.1 hallowed.2
        exact ⟨{ m with lists := t' }, by rw [step, listAdd, ht']; rfl, hqueues, hholds⟩
  | prepend list data =>
    cases list with
    | none => exact ⟨m, rfl, hqueues, hlists⟩
    | some i =>
      cases data with
      | none => exact ⟨m, rfl, hqueues, hlists⟩
      | some d =>
        obtain ⟨t', ht', hholds⟩ := hlists.add (i := i) (u := []) hallowed rfl
        rw [List.getLast?_nil] at ht'
        exact ⟨{ m with lists := t' }, by rw [step, listPrepend, listAdd, ht']; rfl, hqueues,
          hholds⟩
  | append list data =>
    cases list with
    | none => exact hallowed.elim
    | some i =>
      cases data with
      | none => exact ⟨m, rfl, hqueues, hlists⟩
      | some d =>
        have htail : (m.lists.inst i).tail = (C.lists i).getLast? :=
          (hlists.describes i).queue.tail
        obtain ⟨t', ht', hholds⟩ := hlists.add (i := i) hallowed (List.append_nil _).symm
        exact ⟨{ m with lists := t' },
          by rw [step, listAppend, Option.bind_some, htail, listAdd, ht']; rfl, hqueues,
          hholds⟩
  | remove list data =>
    cases list with
    | none => exact ⟨m, rfl, hqueues, hlists⟩
    | some i =>
      cases data with
      | none => exact ⟨m, rfl, hqueues, hlists⟩
      | some d =>
        have hcounter : (m.lists.inst i).counter = (C.lists i).length :=
          (hlists.describes i).queue.counter
        rw [step, listRemove, meaning]
        by_cases hnil : C.lists i = []
        · rw [if_pos (by rw [hcounter, hnil]; rfl), if_pos hnil]
          exact ⟨m, rfl, hqueues, hlists⟩
        · have hd : d ∈ C.lists i := hallowed.resolve_right hnil
          rw [if_neg (by rw [hcounter]; exact Nat.ne_of_gt (List.length_pos_of_mem hd)),
            if_neg hnil]
          exact ⟨_, rfl, hqueues, remove_member hlists hd⟩

/-- What a function returns has changed only with the return code of success. -/
def Unchanged {σ : Type} (s : σ) (r : Option (σ × Status)) : Prop :=
  ∀ s' e, r = some (s', e) → e ≠ .EOK → s' = s

lemma unchanged_map {σ : Type} (s : σ) (x : Option σ) :
    Unchanged s (x.map fun s => (s, .EOK)) := by
  intro s' e h he
  obtain ⟨t, -, heq⟩ := Option.map_eq_some_iff.mp h
  exact absurd (congrArg Prod.snd heq).symm he

lemma unchanged_some {σ : Type} (s : σ) (e : Status) : Unchanged s (some (s, e)) :=
  fun _ _ h _ => (congrArg Prod.fst (Option.some.inj h)).symm

lemma queueEnqueue_unchanged (s : LinkedQueues ι α) (queue : Option ι) (data : Option α) :
    Unchanged s (queueEnqueue s queue data) := by
  cases queue with
  | none => exact unchanged_some s _
  | some i =>
    cases data with
    | none => exact unchanged_some s _
    | some d => exact unchanged_map s _

lemma queueRoll_unchanged (s : LinkedQueues ι α) (queue : Option ι) :
    Unchanged s (queueRoll s queue) := by
  cases queue with
  | none => exact unchanged_some s _
  | some i => exact unchanged_map s _

lemma queueInsert_unchanged (s : LinkedQueues ι α) (queue : Option ι) (data after : Option α) :
    Unchanged s (queueInsert s queue data after) := by
  cases queue with
  | none => exact unchanged_some s _
  | some i =>
    cases data with
    | none => exact unchanged_some s _
    | some d => exact unchanged_map s _

lemma listAdd_unchanged (t : LinkedLists κ β) (list : Option κ) (prev data : Option β) :
    Unchanged t (listAdd t list prev data) := by
  cases list with
  | none => exact unchanged_some t _
  | some j =>
    cases data with
    | none => exact unchanged_some t _
    | some d => exact unchanged_map t _

lemma listAppend_unchanged (t : LinkedLists κ β) (list : Option κ) (data : Option β) :
    Unchanged t (listAppend t list data) := by
  cases list with
  | none => exact fun _ _ h => absurd h (Option.some_ne_none _).symm
  | some j => exact listAdd_unchanged t (some j) _ data

lemma listRemove_unchanged (t : LinkedLists κ β) (list : Option κ) (data : Option β) :
    Unchanged t (some (listRemove t list data)) := by
  cases list with
  | none => exact unchanged_some t _
  | some j =>
    cases data with
    | none => exact unchanged_some t _
    | some d =>
      rw [listRemove]
      split_ifs
      · exact unchanged_some t _
      · exact unchanged_map t (some (t.remove j d))

lemma queueDequeue_unchanged {s s' : LinkedQueues ι α} {queue : Option ι} {data : Bool}
    {e : Status} {stored : Option (Option α)}
    (h : queueDequeue s queue data = some (s', e, stored)) (he : e ≠ .EOK) : s' = s := by
  cases queue with
  | none => exact (congrArg Prod.fst (Option.some.inj h)).symm
  | some i =>
    cases data with
    | false => exact (congrArg Prod.fst (Option.some.inj h)).symm
    | true =>
      obtain ⟨⟨d, t⟩, hdequeue, heq⟩ := Option.map_eq_some_iff.mp h
      cases d with
      | some d => exact absurd (congrArg (fun x => x.2.1) heq).symm he
      | none =>
        -- nothing is taken from an empty queue only
        obtain rfl : t = s' := congrArg Prod.fst heq
        rw [LinkedQueues.dequeue] at hdequeue
        split_ifs at hdequeue with hcounter
        · exact (congrArg Prod.snd (Option.some.inj hdequeue)).symm
        · cases hhead : (s.inst i).head with
          | none => rw [hhead] at hdequeue; contradiction
          | some f =>
            rw [hhead] at hdequeue
            have hnode : some f = none := congrArg Prod.fst (Option.some.inj hdequeue)
            exact absurd hnode (Option.some_ne_none f)

omit [DecidableEq ι] [DecidableEq α] [DecidableEq κ] [DecidableEq β] in
/-- The memory around the state of a function. -/
lemma Unchanged.memory {σ : Type} {s : σ} {r : Option (σ × Status)} {answer : Answer α}
    (hr : Unchanged s r) (put : σ → Memory ι α κ β)
    (h : (r.map fun x => (put x.1, x.2, none)) = some (m', answer)) (herror : answer.1 ≠ .EOK) :
    m' = put s := by
  obtain ⟨⟨t, e⟩, hcall, heq⟩ := Option.map_eq_some_iff.mp h
  cases heq
  rw [hr t e hcall herror]

/-- A call that reports an error changes nothing. -/
theorem step_of_error {c : Call ι α κ β} {answer : Answer α} (h : step m c = some (m', answer))
    (herror : answer.1 ≠ .EOK) : m' = m := by
  cases c with
  | enqueue queue data =>
    exact (queueEnqueue_unchanged _ _ _).memory (fun s => { m with queues := s }) h herror
  | dequeue queue data =>
    obtain ⟨⟨s, e, d⟩, hcall, heq⟩ := Option.map_eq_some_iff.mp h
    cases heq
    rw [queueDequeue_unchanged hcall herror]
  | roll queue =>
    exact (queueRoll_unchanged _ _).memory (fun s => { m with queues := s }) h herror
  | insert queue data after =>
    exact (queueInsert_unchanged _ _ _ _).memory (fun s => { m with queues := s }) h herror
  | add list prev data | prepend list data =>
    exact (listAdd_unchanged _ _ _ _).memory (fun t => { m with lists := t }) h herror
  | append list data =>
    exact (listAppend_unchanged _ _ _).memory (fun t => { m with lists := t }) h herror
  | remove list data =>
    exact (listRemove_unchanged _ _ _).memory (fun t => { m with lists := t }) h herror

end Step

/-- The calls of a run do to the queues and lists what they mean for the sequences, with the same
answers, and a call that reports an error changes nothing. -/
theorem sequences_refined {m : Memory ι α κ β} {C : Contents ι α κ β} (h : Represents m C)
    {calls : List (Call ι α κ β)} (hallowed : AllowedRun C calls) :
    (∃ m', run m calls = some (m', (meanings C calls).2) ∧
        Represents m' (meanings C calls).1) ∧
      ∀ (m m' : Memory ι α κ β) c answer, step m c = some (m', answer) → answer.1 ≠ .EOK →
        m' = m := by
  refine ⟨?_, fun m m' c answer => step_of_error⟩
  induction calls generalizing m C with
  | nil => exact ⟨m, rfl, h⟩
  | cons c calls ih =>
    obtain ⟨m₁, hstep, hrep⟩ := step_represents h hallowed.1
    obtain ⟨m', hrun, hend⟩ := ih hrep hallowed.2
    refine ⟨m', ?_, hend⟩
    rw [run, hstep, Option.bind_some]
    dsimp only
    rw [hrun]
    rfl

omit [DecidableEq ι] [DecidableEq α] [DecidableEq κ] [DecidableEq β] in
/-- One queue and one list. -/
def someCalls : List (Call Unit Nat Unit Nat) :=
  [.enqueue (some ()) (some 1), .insert (some ()) (some 2) (some 1), .roll (some ()),
    .dequeue (some ()) true, .append (some ()) (some 5), .add (some ()) (some 5) (some 6),
    .prepend (some ()) (some 4), .remove (some ()) (some 5), .remove (some ()) none]

theorem sequences_someCalls :
    (∃ m', run ⟨⟨fun _ => none, fun _ => .empty⟩, ⟨fun _ => none, fun _ => none, fun _ => .empty⟩⟩
        someCalls = some (m', (meanings ⟨fun _ => [], fun _ => []⟩ someCalls).2) ∧
      Represents m' (meanings ⟨fun _ => [], fun _ => []⟩ someCalls).1) ∧
      ∀ (m m' : Memory Unit Nat Unit Nat) c answer, step m c = some (m', answer) →
        answer.1 ≠ .EOK → m' = m :=
  sequences_refined ⟨.empty _, .empty _ _⟩
    (by simp [someCalls, AllowedRun, Allowed, IsPlace, meaning, place, rolled])

end DiegOS.Support.Sequences
