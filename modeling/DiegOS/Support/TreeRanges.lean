import DiegOS.Support.TreeNeighbours

/-!
# Ranges of the red-black tree

`rbtree_enumerate_inorder_range`: both keys are rounded to nodes of the tree, and a loop over
the next nodes goes from one to the other.

Main results:

- Theorem `enumerateInorderRange_eq`: what is stored for a range.
- Theorem `range_right_iff`: which ranges are stored as they are.
-/

namespace DiegOS.Support

open Lib.OrderedList Std

namespace Tree

variable {α : Type} [DecidableEq α] (cmp : α → α → Ordering)

/-- The loop of `rbtree_enumerate_inorder_range` and the node behind it: what is stored
in `list`, and the number of the nodes.  A cursor that is `NULL` stays so, and the loop
does not end; none if it has not ended after a number of rounds. -/
def rangeLoop (root : Tree α) (stop : α) : Nat → Option α → List α → Option (List α × Nat)
  | 0, _, _ => none
  | _ + 1, none, _ => none
  | rounds + 1, some cursor, list =>
    if cursor = stop then some (list ++ [cursor], list.length + 1)
    else rangeLoop root stop rounds (next cmp root cursor) (list ++ [cursor])

/-- `rbtree_enumerate_inorder_range` -/
def enumerateInorderRange (root : Tree α) (low high : α) (rounds : Nat) :
    Option (List α × Nat) :=
  if root.isNil then some ([], 0)
  else
    let start := (search cmp low root).or (searchNext cmp root low)
    let stop := (search cmp high root).or (searchPrevious cmp root high)
    match start, stop with
    | some start, some stop =>
      if cmp start stop ≠ .lt then some ([], 0)
      else rangeLoop cmp root stop rounds (some start) []
    | _, _ => some ([], 0)

variable {cmp} [TransCmp cmp] {t : Tree α} {low high stop : α}

/-- The loop stores all nodes up to the last one. -/
lemma rangeLoop_eq (h : Sorted cmp t.toList) : ∀ (rounds : Nat) {pre seg post : List α}
    (list : List α), t.toList = pre ++ (seg ++ stop :: post) → seg.length < rounds →
    rangeLoop cmp t stop rounds (seg ++ [stop]).head? list =
      some (list ++ (seg ++ [stop]), list.length + (seg.length + 1)) := by
  intro rounds
  induction rounds with
  | zero => exact fun {_ seg _} _ _ hlen => absurd hlen (Nat.not_lt_zero seg.length)
  | succ rounds ih =>
    intro pre seg post list hlist hlen
    cases seg with
    | nil =>
      rw [List.nil_append, List.head?_cons, rangeLoop, if_pos rfl]
      rfl
    | cons v seg =>
      have hne : v ≠ stop := by
        rintro rfl
        have hnodup := nodup_of_sorted h
        rw [hlist] at hnodup
        have hrest := (List.nodup_append.mp hnodup).2.1
        exact (List.nodup_cons.mp hrest).1 (List.mem_append_right _ (.head _))
      have hnext : next cmp t v = (seg ++ [stop]).head? := by
        rw [next_eq_head h hlist ReflCmp.compare_self]
        cases seg <;> rfl
      have hsplit : t.toList = (pre ++ [v]) ++ (seg ++ stop :: post) := by
        simp [hlist]
      have hrest := ih (list ++ [v]) hsplit (Nat.lt_of_succ_lt_succ hlen)
      rw [List.cons_append, List.head?_cons, rangeLoop, if_neg hne, hnext, hrest]
      simp
      omega

omit [DecidableEq α] in
/-- The first node of the loop: the first one that is not below the range. -/
lemma start_eq (h : Sorted cmp t.toList) (low : α) :
    (search cmp low t).or (searchNext cmp t low) =
      (t.toList.filter fun a => cmp a low ≠ .lt).head? := by
  rw [search_eq_find h, searchNext, findInRbtree_eq h]
  exact find_or_nearest (by decide) (towards_gt h) low

omit [DecidableEq α] in
/-- The last node of the loop: the last one that is not above the range. -/
lemma stop_eq (h : Sorted cmp t.toList) (high : α) :
    (search cmp high t).or (searchPrevious cmp t high) =
      (t.toList.filter fun a => cmp a high ≠ .gt).getLast? := by
  rw [search_eq_find h, searchPrevious, findInRbtree_eq h, List.getLast?_eq_head?_reverse,
    ← List.filter_reverse, ← find_reverse h]
  exact find_or_nearest (by decide) (towards_lt h) high

omit [DecidableEq α] in
/-- What lies above a range lies above what lies below it. -/
lemma gt_of_beyond {a b : α} (hle : cmp low high ≠ .gt) (hb : cmp b high = .gt)
    (ha : cmp a low = .lt) : cmp b a = .gt := by
  have hge := OrientedCmp.isGE_of_isLE (Ordering.isLE_iff_ne_gt.mpr hle)
  have hbl := TransCmp.gt_of_gt_of_isGE hb hge
  exact TransCmp.gt_trans hbl (OrientedCmp.gt_of_lt ha)

omit [DecidableEq α] in
/-- Between two keys in the wrong order, the node at the first one is the greater one. -/
lemma gt_of_crossed {a b : α} (hgt : cmp low high = .gt) (hb : cmp b low ≠ .lt)
    (ha : cmp a high ≠ .gt) : cmp b a = .gt := by
  have hbh := TransCmp.gt_of_isGE_of_gt (Ordering.isGE_iff_ne_lt.mpr hb) hgt
  have hge := OrientedCmp.isGE_of_isLE (Ordering.isLE_iff_ne_gt.mpr ha)
  exact TransCmp.gt_of_gt_of_isGE hbh hge

/-- A range is stored unless it has one node only. -/
theorem enumerateInorderRange_eq (h : Sorted cmp t.toList) (hle : cmp low high ≠ .gt)
    {rounds : Nat} (hrounds : t.toList.length ≤ rounds) :
    enumerateInorderRange cmp t low high rounds =
      some (if (between cmp low high t.toList).length = 1 then ([], 0)
        else (between cmp low high t.toList, (between cmp low high t.toList).length)) := by
  unfold enumerateInorderRange
  cases hnil : t.isNil with
  | true =>
    cases t with
    | nil => rfl
    | node => contradiction
  | false =>
    rw [if_neg Bool.false_ne_true, start_eq h, stop_eq h]
    rcases between_split h hle with ⟨hlist, hstart, hstop⟩
    have hrange : Sorted cmp (between cmp low high t.toList) := h.filter _
    rw [hstart] at hlist
    rw [hstart, hstop]
    rcases hbetween : between cmp low high t.toList with _ | ⟨x, range⟩
    · -- the first node above the range and the last node below it
      rw [List.nil_append, List.append_nil]
      rcases hhead : (t.toList.filter fun a => cmp a high = .gt).head? with _ | b
      · rfl
      · rcases hlast : (t.toList.filter fun a => cmp a low = .lt).getLast? with _ | a
        · rfl
        · have hb := (List.mem_filter.mp (List.mem_of_head? hhead)).2
          have ha := (List.mem_filter.mp (List.mem_of_getLast? hlast)).2
          have hgt := gt_of_beyond hle (of_decide_eq_true hb) (of_decide_eq_true ha)
          simp [hgt]
    · rw [List.cons_append, List.head?_cons]
      rcases List.eq_nil_or_concat range with hrest | ⟨seg, stop, hrest⟩
      · subst hrest
        have heq : cmp x x = .eq := ReflCmp.compare_self
        simp [heq]
      · subst hrest
        rw [hbetween] at hlist hrange
        have hlt : cmp x stop = .lt :=
          (List.pairwise_cons.mp hrange).1 stop (by simp)
        have hlen : (x :: seg).length < rounds := by
          have htotal := congrArg List.length hlist
          simp at htotal
          simp
          omega
        have hsplit : t.toList = t.toList.filter (fun a => cmp a low = .lt) ++
            ((x :: seg) ++ stop :: t.toList.filter fun a => cmp a high = .gt) := by
          simpa using hlist
        have hloop := rangeLoop_eq h rounds [] hsplit hlen
        have hlast : (t.toList.filter (fun a => cmp a low = .lt) ++
            x :: seg.concat stop).getLast? = some stop := by
          rw [List.concat_eq_append, ← List.cons_append, ← List.append_assoc,
            List.getLast?_append, List.getLast?_singleton, Option.some_or]
        rw [List.cons_append, List.head?_cons] at hloop
        rw [hlast]
        dsimp only
        rw [hlt, if_neg (by simp), hloop]
        simp

/-- Above its upper end a range is empty. -/
lemma enumerateInorderRange_of_gt (h : Sorted cmp t.toList) (hgt : cmp low high = .gt)
    (rounds : Nat) : enumerateInorderRange cmp t low high rounds = some ([], 0) := by
  unfold enumerateInorderRange
  cases hnil : t.isNil with
  | true => rfl
  | false =>
    rw [if_neg Bool.false_ne_true, start_eq h, stop_eq h]
    rcases hhead : (t.toList.filter fun a => cmp a low ≠ .lt).head? with _ | b
    · rfl
    · rcases hlast : (t.toList.filter fun a => cmp a high ≠ .gt).getLast? with _ | a
      · rfl
      · have hb := of_decide_eq_true (List.mem_filter.mp (List.mem_of_head? hhead)).2
        have ha := of_decide_eq_true (List.mem_filter.mp (List.mem_of_getLast? hlast)).2
        have hab := gt_of_crossed hgt hb ha
        simp [hab]

end Tree

open DiegOS.Support.Tree

/-- In every search tree a range from a key up to another one is stored in order, and its nodes
are counted, exactly when it does not have one node only.  From a key down to another one nothing
is stored. -/
theorem range_right_iff {α : Type} [DecidableEq α] {cmp : α → α → Ordering} [TransCmp cmp]
    {t : Tree α} (hsorted : Sorted cmp t.toList) {rounds : Nat}
    (hrounds : t.toList.length ≤ rounds) (low high : α) :
    (cmp low high ≠ .gt →
      (t.enumerateInorderRange cmp low high rounds = some (between cmp low high t.toList,
          (between cmp low high t.toList).length) ↔
        (between cmp low high t.toList).length ≠ 1)) ∧
      (cmp low high = .gt → t.enumerateInorderRange cmp low high rounds = some ([], 0)) := by
  constructor
  · intro hle
    rw [enumerateInorderRange_eq hsorted hle hrounds]
    constructor
    · intro heq hone
      rw [if_pos hone, hone] at heq
      simp at heq
    · intro hmany
      rw [if_neg hmany]
  · exact fun hgt => enumerateInorderRange_of_gt hsorted hgt rounds

/-- The range from 3 to 7 has two nodes. -/
theorem range_right_two :
    threeNodes.enumerateInorderRange (compare : Nat → Nat → Ordering) 3 7 3 = some ([4, 6], 2) :=
  ((range_right_iff threeNodes_sorted (by decide) 3 7).1 (by decide)).mpr (by decide)

/-- The range from 3 to 5 has one node, and nothing is stored. -/
theorem range_of_one :
    Sorted (compare : Nat → Nat → Ordering) threeNodes.toList ∧
      between (compare : Nat → Nat → Ordering) 3 5 threeNodes.toList = [4] ∧
      ∀ rounds, threeNodes.enumerateInorderRange (compare : Nat → Nat → Ordering) 3 5 rounds =
        some ([], 0) := by
  exact ⟨threeNodes_sorted, by decide, fun rounds => by rfl⟩

end DiegOS.Support
