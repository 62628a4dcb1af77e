import DiegOS.Support.RedBlackTree

/-!
# Searching the red-black tree

The queries of `red_black_tree.c`: a search by key, the first node, and the node after the
one with a given key.  They only depend on the order of the nodes, not on the colours.

Main results:

- Theorem `search_eq_find`: a search finds the node with the key.
- Theorem `sorted_of_search`: if every node of a tree is found, the tree has the order of
  the comparison that was used.
- Theorem `findCommon_nearest`: the descent to a key and one step find the nearest node on
  each side.
- Theorem `next_eq_head`: the next node is the one that follows in order.
-/

namespace DiegOS.Support

open Lib.OrderedList Std

namespace Tree

variable {α : Type} (cmp : α → α → Ordering)

/-- `get_from_rbtree_internal` -/
def search (target : α) : Tree α → Option α
  | nil => none
  | node _ l v r =>
    match cmp v target with
    | .gt => search target l
    | .lt => search target r
    | .eq => some v

/-- The loop that goes down on one side. -/
def outermost (dir : Dir) : Tree α → Option α
  | nil => none
  | node _ l v r =>
    match dir with
    | .left => if l.isNil then some v else outermost dir l
    | .right => if r.isNil then some v else outermost dir r

/-- `rbtree_first` -/
def first (root : Tree α) : Option α := outermost .left root

/-- `find_common`: the node with the key, and the last nodes left on each side. -/
def findCommon (target : α) : Tree α → (Dir → Option α) → Tree α × (Dir → Option α)
  | nil, parents => (nil, parents)
  | node c l v r, parents =>
    match cmp v target with
    | .gt => findCommon target l (Function.update parents .right (some v))
    | .lt => findCommon target r (Function.update parents .left (some v))
    | .eq => (node c l v r, parents)

def findInRbtreeExact (root : Tree α) (target : α) (lower : Bool) : Option α :=
  let (root, lastp) := findCommon cmp target root fun _ => none
  let dir := if lower then Dir.left else Dir.right
  if root.isNil then none
  else if (root.child dir).isNil then lastp dir
  else outermost dir.other (root.child dir)

/-- `rbtree_next` -/
def next (root : Tree α) (target : α) : Option α := findInRbtreeExact cmp root target false

variable {cmp} {t : Tree α} {target v x : α} {l r : List α}

/-! ## Search -/

theorem search_eq_find [TransCmp cmp] (hsorted : Sorted cmp t.toList) :
    search cmp target t = find cmp target t.toList := by
  induction t with
  | nil => rfl
  | node c l v r ihl ihr =>
    rcases sorted_middle.mp hsorted with ⟨hl, hr, -, -⟩
    rw [search, toList]
    cases hcmp : cmp v target with
    | gt => rw [find_of_gt hsorted hcmp, ← ihl hl]
    | lt => rw [find_of_lt hsorted hcmp, ← ihr hr]
    | eq => rw [find_of_eq hsorted hcmp]

/-- Two keys that compare alike are found alike. -/
lemma search_congr {target' : α} (hsame : ∀ v, cmp v target = cmp v target') :
    search cmp target t = search cmp target' t := by
  induction t with
  | nil => rfl
  | node c l v r ihl ihr => rw [search, search, hsame, ihl, ihr]

/-- What a search finds is a node with the key, whatever the order of the tree. -/
lemma mem_of_search (hsearch : search cmp target t = some x) :
    x ∈ t.toList ∧ cmp x target = .eq := by
  induction t with
  | nil => cases hsearch
  | node c l v r ihl ihr =>
    rw [search] at hsearch
    rw [toList]
    cases hcmp : cmp v target with
    | gt =>
      rw [hcmp] at hsearch
      exact ⟨List.mem_append_left _ (ihl hsearch).1, (ihl hsearch).2⟩
    | lt =>
      rw [hcmp] at hsearch
      exact ⟨List.mem_append_right _ (.tail _ (ihr hsearch).1),
        (ihr hsearch).2⟩
    | eq =>
      rw [hcmp] at hsearch
      cases hsearch
      exact ⟨List.mem_append_right _ (.head _), hcmp⟩

/-- A tree in which every node is found has the order of the comparison. -/
theorem sorted_of_search [TransCmp cmp] (hnodup : t.toList.Nodup)
    (hall : ∀ a ∈ t.toList, search cmp a t = some a) : Sorted cmp t.toList := by
  induction t with
  | nil => exact List.Pairwise.nil
  | node c l v r ihl ihr =>
    rw [toList] at hnodup hall ⊢
    rcases List.nodup_append.mp hnodup with ⟨hl, hvr, hdisjoint⟩
    rcases List.nodup_cons.mp hvr with ⟨hv, hr⟩
    have hleft : ∀ a ∈ l.toList, cmp v a = .gt ∧ search cmp a l = some a := by
      intro a ha
      have hfound := hall a (List.mem_append_left _ ha)
      rw [search] at hfound
      cases hcmp : cmp v a with
      | gt =>
        rw [hcmp] at hfound
        exact ⟨rfl, hfound⟩
      | lt =>
        rw [hcmp] at hfound
        exact absurd rfl
          (hdisjoint a ha a (.tail _ (mem_of_search hfound).1))
      | eq =>
        rw [hcmp] at hfound
        exact absurd (Option.some.inj hfound).symm (hdisjoint a ha v (.head _))
    have hright : ∀ a ∈ r.toList, cmp v a = .lt ∧ search cmp a r = some a := by
      intro a ha
      have hfound := hall a (List.mem_append_right _ (.tail _ ha))
      rw [search] at hfound
      cases hcmp : cmp v a with
      | gt =>
        rw [hcmp] at hfound
        exact absurd rfl
          (hdisjoint a (mem_of_search hfound).1 a (.tail _ ha))
      | lt =>
        rw [hcmp] at hfound
        exact ⟨rfl, hfound⟩
      | eq =>
        rw [hcmp] at hfound
        rw [Option.some.inj hfound] at hv
        exact absurd ha hv
    apply sorted_middle.mpr
    refine ⟨ihl hl fun a ha => (hleft a ha).2, ihr hr fun a ha => (hright a ha).2, ?_, ?_⟩
    · intro a ha
      exact OrientedCmp.lt_of_gt (hleft a ha).1
    · intro b hb
      exact (hright b hb).1

/-! ## Order -/

lemma outermost_left (t : Tree α) : outermost .left t = t.toList.head? := by
  induction t with
  | nil => rfl
  | node c l v r ihl ihr =>
    rw [outermost, toList, List.head?_append, ← ihl]
    cases l with
    | nil => rfl
    | node c' l' v' r' =>
      rw [if_neg (by simp [isNil])]
      have hsome : (outermost .left (node c' l' v' r')).isSome = true := by
        rw [ihl, List.isSome_head?]
        simp [toList]
      rcases Option.isSome_iff_exists.mp hsome with ⟨a, ha⟩
      rw [ha]
      rfl

lemma first_eq_head (t : Tree α) : first t = t.toList.head? := outermost_left t

/-! ## Sides

A descent to a key remembers the last node on each side of it; both sides are treated as one. -/

/-- How a node on one side of a key compares to it. -/
def side : Dir → Ordering
  | .left => .lt
  | .right => .gt

/-- The nodes in the order that goes towards one side. -/
def towards (dir : Dir) (t : Tree α) : List α :=
  match dir with
  | .left => t.toList.reverse
  | .right => t.toList

variable {dir : Dir}

lemma side_ne_eq (dir : Dir) : side dir ≠ .eq := by
  cases dir <;> simp [side]

lemma side_other (dir : Dir) : side dir.other = (side dir).swap := by
  cases dir <;> rfl

lemma eq_join (c : Color) (l : Tree α) (v : α) (r : Tree α) (dir : Dir) :
    node c l v r = join c v dir ((node c l v r).child dir) ((node c l v r).child dir.other) := by
  cases dir <;> rfl

/-- Induction along the descent to a key, which `f` compares to the nodes. -/
lemma descent_induction (f : α → Ordering) {P : Tree α → Prop} (hnil : P nil)
    (hfound : ∀ c l v r, f v = .eq → P (node c l v r))
    (hstep : ∀ c v dir x y, f v = side dir.other → P x → P (join c v dir x y)) (t : Tree α) :
    P t := by
  induction t with
  | nil => exact hnil
  | node c l v r ihl ihr =>
    cases hcmp : f v with
    | eq => exact hfound c l v r hcmp
    | gt => exact hstep c v .left l r hcmp ihl
    | lt => exact hstep c v .right r l hcmp ihr

lemma towards_node (c : Color) (l : Tree α) (v : α) (r : Tree α) (dir : Dir) :
    (node c l v r).towards dir =
      ((node c l v r).child dir.other).towards dir ++
        v :: ((node c l v r).child dir).towards dir := by
  cases dir <;> simp [towards, child, Dir.other, toList]

lemma mem_towards : x ∈ t.towards dir ↔ x ∈ t.toList := by
  cases dir <;> simp [towards]

lemma towards_of_sorted [TransCmp cmp] (h : Sorted cmp t.toList) (dir : Dir) :
    Towards cmp (side dir) (t.towards dir) := by
  cases dir with
  | left => exact towards_lt h
  | right => exact towards_gt h

lemma sorted_child [TransCmp cmp] (h : Sorted cmp t.toList) (dir : Dir) :
    Sorted cmp (t.child dir).toList := by
  cases t with
  | nil => exact List.Pairwise.nil
  | node c l v r =>
    rcases sorted_middle.mp h with ⟨hl, hr, -, -⟩
    cases dir with
    | left => exact hl
    | right => exact hr

lemma outermost_right (t : Tree α) : outermost .right t = t.toList.reverse.head? := by
  induction t with
  | nil => rfl
  | node c l v r ihl ihr =>
    rw [outermost, toList, List.reverse_append, List.reverse_cons, List.append_assoc,
      List.head?_append, ← ihr]
    cases r with
    | nil => rfl
    | node c' l' v' r' =>
      rw [if_neg (by simp [isNil])]
      have hsome : (outermost .right (node c' l' v' r')).isSome = true := by
        rw [ihr, List.isSome_head?]
        simp [toList]
      rcases Option.isSome_iff_exists.mp hsome with ⟨a, ha⟩
      rw [ha]
      rfl

/-- The loop on one side ends at the first node. -/
lemma outermost_other (t : Tree α) (dir : Dir) :
    outermost dir.other t = (t.towards dir).head? := by
  cases dir with
  | left => exact outermost_right t
  | right => exact outermost_left t

/-- What `find_common` returns: the subtree of a found node is not empty. -/
lemma findCommon_isNil (cmp : α → α → Ordering) (target : α) (t : Tree α)
    (parents : Dir → Option α) :
    (findCommon cmp target t parents).1.isNil = (search cmp target t).isNone := by
  induction t generalizing parents with
  | nil => rfl
  | node c l v r ihl ihr =>
    rw [findCommon, search]
    cases cmp v target with
    | gt => exact ihl _
    | lt => exact ihr _
    | eq => rfl

/-- The last step of both searches: a step to one side, or the last node left on this side. -/
def stepTo (dir : Dir) (found : Tree α × (Dir → Option α)) : Option α :=
  if !found.1.isNil && !(found.1.child dir).isNil then outermost dir.other (found.1.child dir)
  else found.2 dir

/-- The descent goes to the child on the other side of a node on the side, which is remembered. -/
lemma findCommon_beyond {c : Color} {l r : Tree α} (parents : Dir → Option α)
    (hv : cmp v target = side dir) : findCommon cmp target (node c l v r) parents =
      findCommon cmp target ((node c l v r).child dir.other)
        (Function.update parents dir (some v)) := by
  rw [findCommon, hv]
  cases dir <;> rfl

/-- The first node on one side of the key, after those that were passed. -/
theorem findCommon_nearest [TransCmp cmp] (target : α) (dir : Dir) :
    ∀ {t : Tree α} (parents : Dir → Option α),
    Sorted cmp t.toList → stepTo dir (findCommon cmp target t parents) =
      ((t.towards dir).filter fun a => cmp a target = side dir).head?.or (parents dir) := by
  intro t
  induction t with
  | nil =>
    intro parents _
    cases dir <;> rfl
  | node c l v r ihl ihr =>
    intro parents h
    have hchild : ∀ d (parents : Dir → Option α),
        stepTo dir (findCommon cmp target ((node c l v r).child d) parents) =
          ((((node c l v r).child d).towards dir).filter
            fun a => cmp a target = side dir).head?.or (parents dir) := by
      intro d parents
      cases d with
      | left => exact ihl parents (sorted_child h .left)
      | right => exact ihr parents (sorted_child h .right)
    have htowards := towards_of_sorted h dir
    have hside := side_ne_eq dir
    rw [towards_node] at htowards ⊢
    by_cases hbeyond : cmp v target = side dir
    · rw [findCommon_beyond parents hbeyond, hchild, filter_beyond hside htowards hbeyond,
        Function.update_self, List.head?_append, List.head?_cons, Option.or_assoc, Option.some_or]
    · by_cases hbefore : cmp v target = side dir.other
      · rw [findCommon_beyond parents hbefore, hchild, other_other,
          Function.update_of_ne (by cases dir <;> simp [Dir.other]),
          filter_before hside htowards (by rw [hbefore, side_other])]
      · have heq : cmp v target = .eq := by
          cases hcmp : cmp v target <;> cases dir <;> simp_all [side, Dir.other]
        rw [findCommon, heq, filter_behind hside htowards heq]
        unfold stepTo
        rw [outermost_other]
        generalize (node c l v r).child dir = t'
        cases t' with
        | nil => cases dir <;> rfl
        | node c' l' v' r' =>
          rw [if_pos (by simp [isNil])]
          rcases hhead : ((node c' l' v' r').towards dir).head? with _ | a
          · rw [towards_node] at hhead
            simp at hhead
          · rfl

/-- Without the key the exact search finds nothing. -/
lemma findInRbtreeExact_eq_stepTo (t : Tree α) (target : α) (lower : Bool) :
    findInRbtreeExact cmp t target lower =
      if (search cmp target t).isSome then
        stepTo (if lower then Dir.left else Dir.right) (findCommon cmp target t fun _ => none)
      else none := by
  have hnil := findCommon_isNil cmp target t fun _ => none
  unfold findInRbtreeExact stepTo
  dsimp only
  rw [hnil]
  cases search cmp target t with
  | none => rfl
  | some a =>
    generalize (findCommon cmp target t fun _ => none).1.child
      (if lower then Dir.left else Dir.right) = t'
    cases t' <;> rfl

/-- The next node is the one that follows in order. -/
theorem next_eq_head [TransCmp cmp] (hsorted : Sorted cmp t.toList)
    (hlist : t.toList = l ++ v :: r) (hkey : cmp v target = .eq) :
    next cmp t target = r.head? := by
  have hnearest := findCommon_nearest target .right (fun _ => none) hsorted
  have hsorted' := hsorted
  rw [hlist] at hsorted'
  have hfound : (search cmp target t).isSome = true := by
    rw [search_eq_find hsorted, hlist, find_of_eq hsorted' hkey]
    rfl
  unfold next
  rw [findInRbtreeExact_eq_stepTo, if_pos hfound]
  apply hnearest.trans
  rw [Option.or_none]
  change (t.toList.filter fun a => cmp a target = .gt).head? = r.head?
  rw [hlist, filter_behind (by decide) (towards_gt hsorted') hkey]

/-! ## Insertion -/

/-- An insertion adds the node unless its key is there; no balance is needed for that. -/
lemma insert_toList [TransCmp cmp] (x : α) (hsorted : Sorted cmp t.toList) :
    (t.insert cmp x).1.toList = add cmp x t.toList ∧
      (t.insert cmp x).2 = if (find cmp x t.toList).isSome then none else some x := by
  cases t with
  | nil => exact ⟨rfl, rfl⟩
  | node c l v r =>
    rcases insertRecursive_toList x hsorted with ⟨hlist, hdup⟩
    rw [insert]
    dsimp only
    rw [← hdup]
    split
    · exact ⟨hlist, rfl⟩
    · exact ⟨(toList_paint ..).trans hlist, rfl⟩

end Tree
end DiegOS.Support
