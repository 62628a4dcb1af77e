import DiegOS.Support.RedBlackTree

/-!
# The verifier of the red-black tree

`rbtree_verify` looks at the colours, at the heights, and at each node and its children; it
does not compare a node with what is further down.

Main results:

- Theorem `verify_eq_iff`: exactly which trees it accepts, and with which value.
- Theorem `verify_decides_iff`: for which trees that is the answer to whether they are
  red-black trees.
-/

namespace DiegOS.Support

open Lib.OrderedList Std

namespace Tree

variable {α : Type} (cmp : α → α → Ordering)

/-! ## The code -/

/-- The data of a node; none for `NULL`. -/
def rootData : Tree α → Option α
  | nil => none
  | node _ _ v _ => some v

/-- A child exists and does not compare to the root as it should. -/
def misplaced (child : Tree α) (root : α) (key : Ordering) : Bool :=
  child.rootData.any fun w => cmp w root ≠ key

/-- `rbtree_verify` -/
def verify : Tree α → Nat
  | nil => 1
  | node c ln v rn =>
    if c = .red ∧ (ln.isRed ∨ rn.isRed) then 0
    else
      let lh := verify ln
      let rh := verify rn
      if misplaced cmp ln v .lt || misplaced cmp rn v .gt then 0
      else if lh ≠ 0 ∧ rh ≠ 0 ∧ lh ≠ rh then 0
      else if lh ≠ 0 ∧ rh ≠ 0 then (if c = .red then lh else lh + 1)
      else 0

/-! ## What is accepted -/

/-- Every node is on the right side of its parent. -/
def ChildrenOrdered : Tree α → Prop
  | nil => True
  | node _ l v r =>
    (∀ w ∈ l.rootData, cmp w v = .lt) ∧ (∀ w ∈ r.rootData, cmp w v = .gt) ∧
      ChildrenOrdered l ∧ ChildrenOrdered r

variable {cmp} {t l r : Tree α} {v : α} {n : Nat} {c : Color}

lemma misplaced_eq_false {key : Ordering} :
    misplaced cmp t v key = false ↔ ∀ w ∈ t.rootData, cmp w v = key := by
  cases t with
  | nil | node => simp [misplaced, rootData]

lemma balanced_node_red :
    Balanced (node .red l v r) n ↔
      (l.isRed = false ∧ r.isRed = false) ∧ Balanced l n ∧ Balanced r n := by
  constructor
  · intro h
    cases h with
    | red hl hr hlb hrb => exact ⟨⟨hlb, hrb⟩, hl, hr⟩
  · rintro ⟨⟨hlb, hrb⟩, hl, hr⟩
    exact .red hl hr hlb hrb

lemma balanced_node_black :
    Balanced (node .black l v r) n ↔ ∃ m, n = m + 1 ∧ Balanced l m ∧ Balanced r m := by
  constructor
  · intro h
    cases h with
    | black hl hr => exact ⟨_, rfl, hl, hr⟩
  · rintro ⟨m, rfl, hl, hr⟩
    exact .black hl hr

/-- The last tests of the verifier: both values are equal, and none is 0. -/
lemma heights_eq_iff (lh rh up : Nat) :
    (if lh ≠ 0 ∧ rh ≠ 0 ∧ lh ≠ rh then 0 else if lh ≠ 0 ∧ rh ≠ 0 then lh + up else 0) = n + 1 ↔
      ∃ m, n = m + up ∧ lh = m + 1 ∧ rh = m + 1 := by
  constructor
  · intro heq
    refine ⟨lh - 1, ?_⟩
    split at heq
    · omega
    · split at heq <;> omega
  · rintro ⟨m, rfl, rfl, rfl⟩
    rw [if_neg (by omega), if_pos (by omega)]
    omega

/-- The value is the black height plus one. -/
theorem verify_eq_iff (t : Tree α) (n : Nat) :
    verify cmp t = n + 1 ↔ ChildrenOrdered cmp t ∧ Balanced t n := by
  induction t generalizing n with
  | nil =>
    constructor
    · intro hone
      cases hone
      exact ⟨trivial, .nil⟩
    · rintro ⟨-, hnil⟩
      cases hnil
      rfl
  | node c l v r ihl ihr =>
    rw [verify, ChildrenOrdered, ← misplaced_eq_false, ← misplaced_eq_false]
    by_cases hred : c = .red ∧ (l.isRed = true ∨ r.isRed = true)
    · rw [if_pos hred]
      rcases hred with ⟨rfl, hred⟩
      apply iff_of_false (by simp)
      rintro ⟨-, hbal⟩
      rcases (balanced_node_red.mp hbal).1 with ⟨hlb, hrb⟩
      simp [hlb, hrb] at hred
    · rw [if_neg hred]
      by_cases hplaced : (misplaced cmp l v .lt || misplaced cmp r v .gt) = true
      · rw [if_pos hplaced]
        apply iff_of_false (by simp)
        rintro ⟨⟨hl, hr, -⟩, -⟩
        simp [hl, hr] at hplaced
      · rw [if_neg hplaced]
        have hgood : misplaced cmp l v .lt = false ∧ misplaced cmp r v .gt = false := by
          simpa using hplaced
        cases c with
        | red =>
          have hblack : l.isRed = false ∧ r.isRed = false := by
            simpa using hred
          have hheights := @heights_eq_iff n (verify cmp l) (verify cmp r) 0
          rw [Nat.add_zero] at hheights
          rw [if_pos rfl, hheights, balanced_node_red]
          constructor
          · rintro ⟨m, rfl, hl, hr⟩
            rcases (ihl n).mp hl with ⟨hlo, hlbal⟩
            rcases (ihr n).mp hr with ⟨hro, hrbal⟩
            exact ⟨⟨hgood.1, hgood.2, hlo, hro⟩, hblack, hlbal, hrbal⟩
          · rintro ⟨⟨-, -, hlo, hro⟩, -, hlbal, hrbal⟩
            exact ⟨n, rfl, (ihl n).mpr ⟨hlo, hlbal⟩, (ihr n).mpr ⟨hro, hrbal⟩⟩
        | black =>
          rw [if_neg (show ¬Color.black = Color.red by simp), heights_eq_iff, balanced_node_black]
          constructor
          · rintro ⟨m, rfl, hl, hr⟩
            rcases (ihl m).mp hl with ⟨hlo, hlbal⟩
            rcases (ihr m).mp hr with ⟨hro, hrbal⟩
            exact ⟨⟨hgood.1, hgood.2, hlo, hro⟩, m, rfl, hlbal, hrbal⟩
          · rintro ⟨⟨-, -, hlo, hro⟩, m, rfl, hlbal, hrbal⟩
            exact ⟨m, rfl, (ihl m).mpr ⟨hlo, hlbal⟩, (ihr m).mpr ⟨hro, hrbal⟩⟩

/-- All paths down have the same number of black nodes. -/
def EqualPaths (t : Tree α) : Prop := ∀ a ∈ t.blackPaths, ∀ b ∈ t.blackPaths, a = b

/-- The answer of the verifier is right: it accepts the red-black trees, whatever the colour of
the root, with the black height plus one. -/
def Decides (cmp : α → α → Ordering) (t : Tree α) : Prop :=
  (verify cmp t ≠ 0 ↔ Sorted cmp t.toList ∧ t.NoRedRed ∧ t.EqualPaths) ∧
    (verify cmp t ≠ 0 → ∀ a ∈ t.blackPaths, verify cmp t = a + 1)

lemma exists_balanced_iff : (∃ n, Balanced t n) ↔ t.NoRedRed ∧ t.EqualPaths := by
  constructor
  · rintro ⟨n, hbal⟩
    rcases balanced_iff.mp hbal with ⟨hred, hpaths⟩
    exact ⟨hred, fun a ha b hb => (hpaths a ha).trans (hpaths b hb).symm⟩
  · rintro ⟨hred, hpaths⟩
    rcases blackPaths_ne_nil t with ⟨n, hn⟩
    exact ⟨n, balanced_iff.mpr ⟨hred, fun a ha => hpaths a ha n hn⟩⟩

lemma verify_ne_zero_iff (t : Tree α) :
    verify cmp t ≠ 0 ↔ ChildrenOrdered cmp t ∧ t.NoRedRed ∧ t.EqualPaths := by
  rw [← exists_balanced_iff]
  constructor
  · intro hne
    rcases Nat.exists_eq_succ_of_ne_zero hne with ⟨n, hn⟩
    rcases (verify_eq_iff t n).mp hn with ⟨hordered, hbal⟩
    exact ⟨hordered, n, hbal⟩
  · rintro ⟨hordered, n, hbal⟩
    rw [(verify_eq_iff t n).mpr ⟨hordered, hbal⟩]
    omega

/-- In a search tree every node is on the right side of its parent. -/
lemma childrenOrdered_of_sorted [TransCmp cmp] (h : Sorted cmp t.toList) :
    ChildrenOrdered cmp t := by
  induction t with
  | nil => exact trivial
  | node c l v r ihl ihr =>
    rcases sorted_middle.mp h with ⟨hl, hr, hlv, hvr⟩
    have hmem : ∀ {t : Tree α} {w : α}, w ∈ t.rootData → w ∈ t.toList := by
      intro t w hw
      cases t with
      | nil => cases hw
      | node c' l' v' r' =>
        cases hw
        simp [toList]
    exact ⟨fun w hw => hlv w (hmem hw), fun w hw => OrientedCmp.gt_of_lt (hvr w (hmem hw)),
      ihl hl, ihr hr⟩

end Tree

open DiegOS.Support.Tree

/-- For every tree the verifier's answer is right exactly when it is not a tree of good colours and
heights in which every node is on the right side of its parent, but not of all nodes above. -/
theorem verify_decides_iff {α : Type} {cmp : α → α → Ordering} [TransCmp cmp] (t : Tree α) :
    t.Decides cmp ↔
      (t.ChildrenOrdered cmp → t.NoRedRed → t.EqualPaths → Sorted cmp t.toList) := by
  unfold Decides
  rw [verify_ne_zero_iff]
  constructor
  · rintro ⟨hiff, -⟩ hordered hred hpaths
    exact (hiff.mp ⟨hordered, hred, hpaths⟩).1
  · intro hdeep
    constructor
    · constructor
      · rintro ⟨hordered, hred, hpaths⟩
        exact ⟨hdeep hordered hred hpaths, hred, hpaths⟩
      · rintro ⟨hsorted, hred, hpaths⟩
        exact ⟨childrenOrdered_of_sorted hsorted, hred, hpaths⟩
    · rintro ⟨hordered, hred, hpaths⟩ a ha
      rcases exists_balanced_iff.mpr ⟨hred, hpaths⟩ with ⟨n, hbal⟩
      rw [(verify_eq_iff t n).mpr ⟨hordered, hbal⟩, (balanced_iff.mp hbal).2 a ha]

/-- Three nodes in two layers. -/
theorem verify_decides_three :
    (Tree.node .black (.node .red .nil 2 .nil) 4 (.node .red .nil 6 .nil)).Decides
      (compare : Nat → Nat → Ordering) := by
  apply (verify_decides_iff _).mpr
  intro _ _ _
  unfold Sorted
  decide

/-- The node 20 is on the right side of its parent 5, but on the left side of the root 10. -/
def deepTree : Tree Nat :=
  .node .black (.node .black .nil 5 (.node .red .nil 20 .nil)) 10 (.node .black .nil 15 .nil)

theorem verify_accepts_unordered :
    deepTree.verify (compare : Nat → Nat → Ordering) = 3 ∧
      ¬Sorted (compare : Nat → Nat → Ordering) deepTree.toList ∧
      ¬deepTree.Decides (compare : Nat → Nat → Ordering) := by
  have hunsorted : ¬Sorted (compare : Nat → Nat → Ordering) deepTree.toList := by
    unfold Sorted
    decide
  have haccepted : deepTree.verify (compare : Nat → Nat → Ordering) = 3 := by
    decide
  refine ⟨haccepted, hunsorted, fun hdecides => ?_⟩
  exact hunsorted (hdecides.1.mp (by rw [haccepted]; decide)).1

end DiegOS.Support
