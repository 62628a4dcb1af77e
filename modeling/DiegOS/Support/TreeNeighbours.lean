import DiegOS.Support.TreeSearch

/-!
# Neighbours in the red-black tree

The nodes next to a key: `rbtree_search_next` and `rbtree_search_previous` for every
key, `rbtree_next` and `rbtree_previous` for a key of the tree.

Main results:

- Theorem `findInRbtree_nearest`: a search finds the nearest node on one side of the key.
- Theorem `neighbours_right`: all four queries, and the nodes in order from the first one.
-/

namespace DiegOS.Support

open Lib.OrderedList Std

namespace Tree

variable {α : Type} (cmp : α → α → Ordering)

/-! ## The code -/

/-- `rbtree_last` -/
def last (root : Tree α) : Option α := outermost .right root

def findInRbtree (root : Tree α) (target : α) (lower : Bool) : Option α :=
  let (root, lastp) := findCommon cmp target root fun _ => none
  let dir := if lower then Dir.left else Dir.right
  if !root.isNil && !(root.child dir).isNil then outermost dir.other (root.child dir)
  else lastp dir

/-- `rbtree_previous` -/
def previous (root : Tree α) (target : α) : Option α := findInRbtreeExact cmp root target true

/-- `rbtree_search_previous` -/
def searchPrevious (root : Tree α) (target : α) : Option α := findInRbtree cmp root target true

/-- `rbtree_search_next` -/
def searchNext (root : Tree α) (target : α) : Option α := findInRbtree cmp root target false

/-- The nodes that a loop over `rbtree_next` visits in a number of rounds. -/
def visits (root : Tree α) : Nat → Option α → List α
  | 0, _ => []
  | _ + 1, none => []
  | n + 1, some cursor => cursor :: visits root n (next cmp root cursor)

variable {cmp} {t : Tree α} {target v x : α}

/-! ## Queries -/

/-- The search on one side of a key finds the nearest node there. -/
lemma findInRbtree_eq [TransCmp cmp] (h : Sorted cmp t.toList) (target : α) (lower : Bool) :
    findInRbtree cmp t target lower =
      ((t.towards (if lower then Dir.left else Dir.right)).filter
        fun a => cmp a target = side (if lower then Dir.left else Dir.right)).head? := by
  have hnearest := findCommon_nearest target (if lower then Dir.left else Dir.right)
    (fun _ => none) h
  rw [Option.or_none] at hnearest
  exact hnearest

/-- Without the key the exact search finds nothing; with it both searches agree. -/
lemma findInRbtreeExact_eq (t : Tree α) (target : α) (lower : Bool) :
    findInRbtreeExact cmp t target lower =
      if (search cmp target t).isSome then findInRbtree cmp t target lower else none :=
  findInRbtreeExact_eq_stepTo t target lower

theorem findInRbtree_nearest [TransCmp cmp] (h : Sorted cmp t.toList) (target : α) (lower : Bool) :
    Nearest cmp (side (if lower then Dir.left else Dir.right)) t.toList target
      (findInRbtree cmp t target lower) := by
  have hnearest := nearest_head
    (towards_of_sorted h (if lower then Dir.left else Dir.right)) target
  rw [← findInRbtree_eq h target lower] at hnearest
  cases hfound : findInRbtree cmp t target lower with
  | none =>
    rw [hfound] at hnearest
    exact fun a ha => hnearest a (mem_towards.mpr ha)
  | some y =>
    rw [hfound] at hnearest
    rcases hnearest with ⟨hy, hside, hall⟩
    exact ⟨mem_towards.mp hy, hside, fun a ha => hall a (mem_towards.mpr ha)⟩

/-- From a node on, the loop visits the rest of the nodes. -/
lemma visits_eq [TransCmp cmp] (h : Sorted cmp t.toList) : ∀ (n : Nat) {l r : List α},
    t.toList = l ++ r → r.length ≤ n → visits cmp t n r.head? = r := by
  intro n
  induction n with
  | zero =>
    intro l r _ hlen
    rw [List.length_eq_zero_iff.mp (Nat.le_zero.mp hlen)]
    rfl
  | succ n ih =>
    intro l r hlist hlen
    cases r with
    | nil => rfl
    | cons v r =>
      rw [List.head?_cons, visits, next_eq_head h hlist ReflCmp.compare_self]
      rw [ih (l := l ++ [v]) (by simp [hlist]) (Nat.le_of_succ_le_succ hlen)]

end Tree

open DiegOS.Support.Tree

/-- In every search tree and for every key the searches find the nearest node on each side.  The
next and the previous node are the same for a key of the tree, and there are none for another
key.  The loop over the next nodes from the first one visits each node once in order. -/
theorem neighbours_right {α : Type} {cmp : α → α → Ordering} [TransCmp cmp] {t : Tree α}
    (hsorted : Sorted cmp t.toList) :
    (∀ target, Nearest cmp .gt t.toList target (t.searchNext cmp target) ∧
      Nearest cmp .lt t.toList target (t.searchPrevious cmp target)) ∧
    (∀ target, (∃ a ∈ t.toList, cmp a target = .eq) →
      t.next cmp target = t.searchNext cmp target ∧
        t.previous cmp target = t.searchPrevious cmp target) ∧
    (∀ target, (∀ a ∈ t.toList, cmp a target ≠ .eq) →
      t.next cmp target = none ∧ t.previous cmp target = none) ∧
    t.toList.Nodup ∧ ∀ n, t.toList.length ≤ n → t.visits cmp n t.first = t.toList := by
  have hfound : ∀ target, (search cmp target t).isSome = true ↔
      ∃ a ∈ t.toList, cmp a target = .eq := by
    intro target
    rw [search_eq_find hsorted, find, List.find?_isSome]
    simp
  constructor
  · exact fun target =>
      ⟨findInRbtree_nearest hsorted target false, findInRbtree_nearest hsorted target true⟩
  constructor
  · intro target hkey
    have hsome := (hfound target).mpr hkey
    exact ⟨(findInRbtreeExact_eq t target false).trans (if_pos hsome),
      (findInRbtreeExact_eq t target true).trans (if_pos hsome)⟩
  constructor
  · intro target hno
    have hnone : ¬(search cmp target t).isSome = true := by
      rw [hfound]
      rintro ⟨a, ha, heq⟩
      exact hno a ha heq
    exact ⟨(findInRbtreeExact_eq t target false).trans (if_neg hnone),
      (findInRbtreeExact_eq t target true).trans (if_neg hnone)⟩
  constructor
  · exact nodup_of_sorted hsorted
  · intro n hn
    rw [first_eq_head]
    exact visits_eq (l := []) hsorted n rfl hn

/-- Three nodes. -/
def threeNodes : Tree Nat := .node .black (.node .red .nil 2 .nil) 4 (.node .red .nil 6 .nil)

lemma threeNodes_sorted : Sorted (compare : Nat → Nat → Ordering) threeNodes.toList := by
  unfold Sorted
  decide

/-- The nodes next to 5, and all of them in order. -/
theorem neighbours_right_three :
    Nearest compare .gt [2, 4, 6] 5
        (threeNodes.searchNext (compare : Nat → Nat → Ordering) 5) ∧
      threeNodes.searchNext (compare : Nat → Nat → Ordering) 5 = some 6 ∧
      threeNodes.visits (compare : Nat → Nat → Ordering) 3 (some 2) = [2, 4, 6] := by
  rcases neighbours_right threeNodes_sorted with ⟨hnearest, -, -, -, hvisits⟩
  exact ⟨(hnearest 5).1, by decide, hvisits 3 (by decide)⟩

end DiegOS.Support
