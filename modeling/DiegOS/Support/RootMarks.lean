import DiegOS.Lib.Runs
import DiegOS.Support.RootFlag
import DiegOS.Support.TreeSearch

/-!
# The marks of roots over runs

A node keeps `NODE_IS_ROOT` when it is extracted while it is the root, and
`rbtree_insert` sets the flag of the root without clearing that of the node it inserts.
Several trees share a pool of nodes that are not linked; the runs are all sequences of calls on
them.

Main results:

- Theorem `RootOnly.insert_iff`: a marked node may be inserted if it ends at the root.
- Theorem `RootOnly.extract`: an extraction keeps the one mark.
- Theorem `one_root_mark`: the marks over all runs.
-/

namespace DiegOS.Support

open Lib DiegOS.Support.Tree Function

namespace FlagTree

variable {α : Type} {c : Color} {v newn : RbNode α} {dir : Dir} {t x y : FlagTree α}

/-! ## The balancing of an insertion -/

/-- What the balancing of an insertion does: nothing, other colours, a single rotation, or a
double rotation. -/
inductive Balancing (c : Color) (v : RbNode α) (dir : Dir) (x y : FlagTree α) : FlagTree α → Prop
  | keep (hx : x.isRed = true →
      y.isRed = false ∧ (x.child dir).isRed = false ∧ (x.child dir.other).isRed = false) :
      Balancing c v dir x y (join c v dir x y)
  | recolour (hx : x.isRed = true) (hy : y.isRed = true) :
      Balancing c v dir x y (join .red v dir (x.paint .black) (y.paint .black))
  | single {w : RbNode α} {a b : FlagTree α} (hx : x = join .red w dir a b)
      (ha : a.isRed = true) (hy : y.isRed = false) :
      Balancing c v dir x y (join .black { w with root := v.root || w.root } dir a
        (join .red { v with root := false } dir b y))
  | double {w u : RbNode α} {a d e : FlagTree α}
      (hx : x = join .red w dir a (join .red u dir d e)) (ha : a.isRed = false)
      (hy : y.isRed = false) :
      Balancing c v dir x y (join .black { u with root := v.root || (w.root || u.root) } dir
        (join .red { w with root := false } dir a d) (join .red { v with root := false } dir e y))

lemma eq_join_of_isRed (h : t.isRed = true) (dir : Dir) :
    ∃ w a b, t = join .red w dir a b := by
  cases t with
  | nil => contradiction
  | node c l v r =>
    cases c with
    | black => contradiction
    | red =>
      cases dir with
      | left => exact ⟨v, l, r, rfl⟩
      | right => exact ⟨v, r, l, rfl⟩

lemma insertBalance_balancing (c : Color) (v : RbNode α) (dir : Dir) (x y : FlagTree α) :
    Balancing c v dir x y (insertBalance (join c v dir x y) dir) := by
  unfold insertBalance
  rw [child_join, child_other_join]
  cases hx : x.isRed with
  | false =>
    rw [if_neg Bool.false_ne_true]
    apply Balancing.keep
    intro hred
    rw [hx] at hred
    contradiction
  | true =>
    rw [if_pos rfl]
    cases hy : y.isRed with
    | true =>
      rw [if_pos rfl, paint_join, paintChildren_join]
      exact Balancing.recolour hx hy
    | false =>
      rw [if_neg Bool.false_ne_true]
      rcases eq_join_of_isRed hx dir with ⟨w, a, b, rfl⟩
      rw [child_join, child_other_join]
      cases ha : a.isRed with
      | true =>
        have hrotate := rotate_join c .red v w dir.other y b a
        rw [join_other, join_other, join_other, join_other] at hrotate
        rw [if_pos rfl, hrotate]
        exact Balancing.single rfl ha hy
      | false =>
        rw [if_neg Bool.false_ne_true]
        cases hb : b.isRed with
        | true =>
          rcases eq_join_of_isRed hb dir with ⟨u, d, e, rfl⟩
          have hrotate := doubleRotate_join c .red .red u v w dir.other y e d a
          simp only [join_other] at hrotate
          rw [if_pos rfl, hrotate]
          exact Balancing.double rfl ha hy
        | false =>
          rw [if_neg Bool.false_ne_true]
          apply Balancing.keep
          intro _
          rw [child_join, child_other_join]
          exact ⟨hy, ha, hb⟩

lemma flags_join (c : Color) (v : RbNode α) (dir : Dir) (x y : FlagTree α) :
    flags (join c v dir x y) = flags x + v.root.toNat + flags y := by
  cases dir with
  | left => rfl
  | right =>
    rw [join, flags]
    omega

lemma isRoot_join (c : Color) (v : RbNode α) (dir : Dir) (x y : FlagTree α) :
    isRoot (join c v dir x y) = v.root := by
  cases dir <;> rfl

lemma topFlag_join {b : Bool} :
    TopFlag b (join c v dir x y) ↔ v.root = b ∧ flags x = 0 ∧ flags y = 0 := by
  cases dir with
  | left => exact Iff.rfl
  | right => exact and_congr_right fun _ => and_comm

/-- Below a node without the flag the balancing keeps the number of flags, if it is at most one,
and a node with the flag only comes to the top with the colour black. -/
lemma flags_insertBalance (c : Color) (dir : Dir) (hv : v.root = false)
    (h : flags x + flags y ≤ 1) :
    flags (insertBalance (join c v dir x y) dir) = flags x + flags y ∧
      (isRoot (insertBalance (join c v dir x y) dir) = true →
        (insertBalance (join c v dir x y) dir).isRed = false) := by
  have hbalancing := insertBalance_balancing c v dir x y
  generalize insertBalance (join c v dir x y) dir = t at hbalancing ⊢
  cases hbalancing with
  | keep hx | recolour hx hy => simp [flags_join, isRoot_join, hv]
  | @single w a b hx ha hy =>
    subst hx
    simp [flags_join, isRed_join, hv]
    omega
  | @double w u a d e hx ha hy =>
    subst hx
    rw [flags_join, flags_join] at h
    cases hw : w.root <;> cases hu : u.root <;> simp [flags_join, isRed_join, hv, hw, hu] at h ⊢ <;>
      omega

/-! ## Insertion -/

variable {cmp : α → α → Ordering}

lemma insertRecursive_of_eq {l r : FlagTree α} (hcmp : cmp v.data newn.data = .eq) :
    insertRecursive cmp newn (node c l v r) = (node c l v r, true) := by
  rw [insertRecursive, hcmp]

/-- The walk of a new key leaves every node on one side. -/
lemma walk_of_new {l r : FlagTree α} (hdup : (insertRecursive cmp newn (node c l v r)).2 = false) :
    ∃ dir : Dir, cmp v.data newn.data = side dir.other := by
  cases hcmp : cmp v.data newn.data with
  | eq =>
    rw [insertRecursive_of_eq hcmp] at hdup
    contradiction
  | gt => exact ⟨.left, rfl⟩
  | lt => exact ⟨.right, rfl⟩

lemma insertRecursive_join (c : Color) (y : FlagTree α)
    (hcmp : cmp v.data newn.data = side dir.other) (t : FlagTree α) :
    insertRecursive cmp newn (join c v dir t y) =
      (insertBalance (join c v dir (insertRecursive cmp newn t).1 y) dir,
        (insertRecursive cmp newn t).2) := by
  cases dir with
  | left | right =>
    rw [join, insertRecursive, hcmp]
    rfl

/-- The recursion reports a duplicate when a search finds the key. -/
lemma insertRecursive_dup (newn : RbNode α) (t : FlagTree α) :
    (insertRecursive cmp newn t).2 = (search cmp newn.data (t.map RbNode.data)).isSome := by
  induction t with
  | nil => rfl
  | node c l v r ihl ihr =>
    rw [insertRecursive, Tree.map, search]
    cases cmp v.data newn.data with
    | eq => rfl
    | gt => exact ihl
    | lt => exact ihr

/-- The recursion adds the flag of the new node to a tree without flags, and below the new
node's own place a node with the flag only comes to the top with the colour black. -/
lemma flags_insertRecursive (cmp : α → α → Ordering) (newn : RbNode α) (h : flags t = 0) :
    flags (insertRecursive cmp newn t).1 =
        (if (insertRecursive cmp newn t).2 then 0 else newn.root.toNat) ∧
      (isRoot (insertRecursive cmp newn t).1 = true → (insertRecursive cmp newn t).1.isRed = true →
        t = nil) := by
  induction t using descent_induction (fun v : RbNode α => cmp v.data newn.data) with
  | hnil => simp [insertRecursive, flags]
  | hfound c l v r hcmp =>
    rcases flags_eq_zero.mp h with ⟨hv, -, -⟩
    rw [insertRecursive_of_eq hcmp, if_pos rfl]
    refine ⟨h, fun hroot => ?_⟩
    rw [isRoot, hv] at hroot
    contradiction
  | hstep c v dir x y hcmp ih =>
    rcases topFlag_join.mp (flags_eq_zero.mp h) with ⟨hv, hx, hy⟩
    rcases ih hx with ⟨hflags, -⟩
    have hone : flags (insertRecursive cmp newn x).1 + flags y ≤ 1 := by
      rw [hflags, hy, Nat.add_zero]
      split
      · exact Nat.zero_le 1
      · exact Bool.toNat_le newn.root
    rcases flags_insertBalance c dir hv hone with ⟨hsum, hblack⟩
    rw [insertRecursive_join c y hcmp]
    constructor
    · rw [hsum, hy, hflags, Nat.add_zero]
    · intro hroot hred
      rw [hblack hroot] at hred
      contradiction

/-- The flagged child on the inner side of a red node. -/
def Lifts (dir : Dir) (t : FlagTree α) : Prop :=
  t.isRed = true ∧ (t.child dir).isRed = false ∧ (t.child dir.other).isRed = true ∧
    isRoot (t.child dir.other) = true

lemma lifts_join : Lifts dir (join c v dir x y) ↔
    c = .red ∧ x.isRed = false ∧ y.isRed = true ∧ isRoot y = true := by
  unfold Lifts
  rw [isRed_join, child_join, child_other_join, decide_eq_true_iff]

/-- At the root the flag of a new node disappears if a double rotation takes the node up. -/
lemma rootOnly_insertBalance (c : Color) (hy : flags y = 0) (hx : flags x ≤ 1)
    (hleaf : isRoot x = true → x.isRed = true → ∀ d, (x.child d).isRed = false) :
    RootOnly (setRoot true ((insertBalance (join c v dir x y) dir).paint .black)) ↔
      flags x = 0 ∨ (Lifts dir x ∧ y.isRed = false) := by
  have hbalancing := insertBalance_balancing c v dir x y
  generalize insertBalance (join c v dir x y) dir = t at hbalancing ⊢
  have hset : ∀ (c : Color) (v : RbNode α) (x y : FlagTree α),
      RootOnly (setRoot true ((join c v dir x y).paint .black)) ↔ flags x = 0 ∧ flags y = 0 := by
    intro c v x y
    cases dir with
    | left => exact and_iff_right rfl
    | right => exact (and_iff_right rfl).trans and_comm
  cases hbalancing with
  | keep hkeep =>
    rw [hset, hy]
    constructor
    · exact fun h => Or.inl h.1
    · intro h
      rcases h with h | ⟨⟨hred, -, hinner, -⟩, -⟩
      · exact ⟨h, rfl⟩
      · rw [(hkeep hred).2.2] at hinner
        contradiction
  | recolour hxred hyred =>
    rw [hset]
    simp [hy, hyred]
  | @single w a b hjoin ha hyred =>
    subst hjoin
    have hw : w.root = false := by
      cases hw : w.root with
      | false => rfl
      | true =>
        have houter := hleaf ((isRoot_join ..).trans hw) (isRed_join ..) dir
        rw [child_join, ha] at houter
        contradiction
    rw [hset, flags_join, flags_join, lifts_join]
    simp [ha, hw, hy]
  | @double w u a d e hjoin ha hyred =>
    subst hjoin
    have hw : w.root = false := by
      cases hw : w.root with
      | false => rfl
      | true =>
        have hinner := hleaf ((isRoot_join ..).trans hw) (isRed_join ..) dir.other
        rw [child_other_join, isRed_join] at hinner
        contradiction
    rw [flags_join, flags_join, hw] at hx
    rw [hset, flags_join, flags_join, flags_join, flags_join, lifts_join]
    cases hu : u.root with
    | false => simp [hw, hu, hy, isRoot_join, Nat.add_eq_zero_iff, and_assoc]
    | true =>
      simp [hw, hu, hy, hyred, ha, isRed_join, isRoot_join] at hx ⊢
      omega

/-- Without flags below the root the balancing leaves the flag at the root. -/
lemma TopFlag.insertBalance {b : Bool} (h : TopFlag b (join c v dir x y)) :
    TopFlag b (insertBalance (join c v dir x y) dir) := by
  rcases topFlag_join.mp h with ⟨hv, hx, hy⟩
  have hbalancing := insertBalance_balancing c v dir x y
  generalize FlagTree.insertBalance (join c v dir x y) dir = t at hbalancing ⊢
  cases hbalancing with
  | keep hkeep => exact h
  | recolour hxred hyred =>
    rw [topFlag_join, flags_paint, flags_paint]
    exact ⟨hv, hx, hy⟩
  | @single w a b' hjoin ha hyred =>
    subst hjoin
    rw [flags_join] at hx
    rw [topFlag_join, flags_join]
    cases hw : w.root with
    | false => simp [hw, hv, hy] at hx ⊢; exact hx
    | true => simp [hw] at hx
  | @double w u a d e hjoin ha hyred =>
    subst hjoin
    rw [flags_join, flags_join] at hx
    rw [topFlag_join, flags_join, flags_join]
    cases hw : w.root with
    | true => simp [hw] at hx
    | false =>
      cases hu : u.root with
      | true => simp [hw, hu] at hx
      | false => simp [hw, hu, hv, hy] at hx ⊢; simp [hx]

variable (cmp) in
/-- A red node whose inner child is missing while the outer one is not red, and the key belongs
on the inner side. -/
def landsBelow (x : α) (dir : Dir) : FlagTree α → Bool
  | nil => false
  | node c l v r =>
    decide (c = .red) && decide (cmp v.data x = side dir) &&
      ((node c l v r).child dir.other).isNil && !((node c l v r).child dir).isRed

variable (cmp) in
/-- The new node becomes a leaf below the red child of the root, on the inner side, and comes to
the root by the double rotation: neither the other child of the root nor the outer child below is
red. -/
def lands (x : α) : FlagTree α → Bool
  | nil => false
  | node _ l v r =>
    match cmp v.data x with
    | .eq => false
    | .gt => landsBelow cmp x .left l && !r.isRed
    | .lt => landsBelow cmp x .right r && !l.isRed

lemma lands_join {k : α} (c : Color) (x y : FlagTree α) (hcmp : cmp v.data k = side dir.other) :
    lands cmp k (join c v dir x y) = (landsBelow cmp k dir x && !y.isRed) := by
  cases dir with
  | left | right => rw [join, lands, hcmp]; rfl

lemma landsBelow_join {k : α} (c : Color) (v : RbNode α) (dir : Dir) (x y : FlagTree α) :
    landsBelow cmp k dir (join c v dir x y) =
      (decide (c = .red) && decide (cmp v.data k = side dir) && y.isNil && !x.isRed) := by
  cases dir <;> rfl

lemma isRoot_of_flags (h : flags t = 0) : isRoot t = false := by
  cases t with
  | nil => rfl
  | node c l v r => exact (flags_eq_zero.mp h).1

lemma eq_nil_of_isNil (h : t.isNil = true) : t = nil := by
  cases t with
  | nil => rfl
  | node => contradiction

lemma child_leaf (c : Color) (v : RbNode α) (dir : Dir) : (node c nil v nil).child dir = nil := by
  cases dir <;> rfl

/-- On the walk to the outer side no flagged node comes to the inner one. -/
lemma not_lifts_outer (hy : flags y = 0) : ¬Lifts dir (insertBalance (join c v dir x y) dir) := by
  have hbalancing := insertBalance_balancing c v dir x y
  generalize insertBalance (join c v dir x y) dir = t at hbalancing ⊢
  intro hlifts
  cases hbalancing with
  | keep =>
    have hroot := (lifts_join.mp hlifts).2.2.2
    rw [isRoot_of_flags hy] at hroot
    contradiction
  | recolour =>
    have hred := (lifts_join.mp hlifts).2.2.1
    rw [isRed_paint_black] at hred
    contradiction
  | single | double => exact absurd (lifts_join.mp hlifts).1 (by simp)

/-- On the walk to the inner side the flagged node stays where it has become a leaf. -/
lemma lifts_inner (hx : isRoot x = true → x.isRed = true → ∀ d, (x.child d).isRed = false) :
    Lifts dir (insertBalance (join c v dir.other x y) dir.other) ↔
      c = .red ∧ y.isRed = false ∧ x.isRed = true ∧ isRoot x = true := by
  have hbalancing := insertBalance_balancing c v dir.other x y
  generalize insertBalance (join c v dir.other x y) dir.other = t at hbalancing ⊢
  cases hbalancing with
  | keep =>
    rw [join_other]
    exact lifts_join
  | recolour hxred hyred =>
    rw [join_other, lifts_join, isRed_paint_black x, hyred]
    simp
  | @single w a b hjoin ha hyred =>
    subst hjoin
    rw [join_other, lifts_join]
    apply iff_of_false
    · exact fun h => absurd h.1 (by simp)
    · intro h
      have houter := hx h.2.2.2 h.2.2.1 dir.other
      rw [child_join, ha] at houter
      contradiction
  | @double w u a d e hjoin ha hyred =>
    subst hjoin
    rw [join_other, lifts_join]
    apply iff_of_false
    · exact fun h => absurd h.1 (by simp)
    · intro h
      have hinner := hx h.2.2.2 h.2.2.1 dir.other.other
      rw [child_other_join, isRed_join] at hinner
      contradiction

/-- A flagged red node is the leaf that the recursion has made of an empty tree. -/
lemma insertRecursive_leaf (h : flags t = 0)
    (hroot : isRoot (insertRecursive cmp newn t).1 = true)
    (hred : (insertRecursive cmp newn t).1.isRed = true) (dir : Dir) :
    ((insertRecursive cmp newn t).1.child dir).isRed = false := by
  rcases (flags_insertRecursive cmp newn h).2 hroot hred with rfl
  rw [insertRecursive, child_leaf]
  rfl

lemma isRoot_insertRecursive (hnew : newn.root = true) (h : flags t = 0) :
    ((insertRecursive cmp newn t).1.isRed = true ∧ isRoot (insertRecursive cmp newn t).1 = true) ↔
      t.isNil = true := by
  constructor
  · intro hleaf
    rcases (flags_insertRecursive cmp newn h).2 hleaf.2 hleaf.1 with rfl
    rfl
  · intro hnil
    rcases eq_nil_of_isNil hnil with rfl
    exact ⟨rfl, hnew⟩

/-- The new node is a red child on the inner side of a red node exactly if it lands there. -/
lemma lifts_iff (hnew : newn.root = true) (h : flags t = 0)
    (hdup : (insertRecursive cmp newn t).2 = false) (dir : Dir) :
    Lifts dir (insertRecursive cmp newn t).1 ↔ landsBelow cmp newn.data dir t = true := by
  cases t with
  | nil => simp [insertRecursive, landsBelow, Lifts, child_leaf, isRed]
  | node c l v r =>
    by_cases hinner : cmp v.data newn.data = side dir
    · have hcmp : cmp v.data newn.data = side dir.other.other := by
        rw [other_other, hinner]
      rw [eq_join c l v r dir.other] at h hdup ⊢
      generalize (node c l v r).child dir.other = x at h hdup ⊢
      generalize (node c l v r).child dir.other.other = y at h hdup ⊢
      rcases topFlag_join.mp (flags_eq_zero.mp h) with ⟨-, hx, -⟩
      rw [insertRecursive_join c y hcmp, lifts_inner (insertRecursive_leaf hx),
        isRoot_insertRecursive hnew hx, join_other, landsBelow_join, hinner]
      simp [and_assoc, and_comm]
    · have hcmp : cmp v.data newn.data = side dir.other := by
        rcases walk_of_new hdup with ⟨d, hcmp⟩
        cases d <;> cases dir <;> first | exact hcmp | exact absurd hcmp hinner
      rw [eq_join c l v r dir] at h ⊢
      rcases topFlag_join.mp (flags_eq_zero.mp h) with ⟨-, -, hy⟩
      rw [insertRecursive_join c _ hcmp, landsBelow_join, decide_eq_false hinner]
      simp [not_lifts_outer hy]

/-- The duplicate exit leaves the mark where it is. -/
lemma TopFlag.insertRecursive {b : Bool} (h : TopFlag b t)
    (hdup : (insertRecursive cmp newn t).2 = true) : TopFlag b (insertRecursive cmp newn t).1 := by
  induction t using descent_induction (fun v : RbNode α => cmp v.data newn.data) with
  | hnil => contradiction
  | hfound c l v r hcmp =>
    rw [insertRecursive_of_eq hcmp]
    exact h
  | hstep c v dir x y hcmp ih =>
    rw [insertRecursive_join c y hcmp] at hdup ⊢
    apply TopFlag.insertBalance
    rcases topFlag_join.mp h with ⟨hv, hx, hy⟩
    apply topFlag_join.mpr
    refine ⟨hv, ?_, hy⟩
    rw [(flags_insertRecursive cmp newn hx).1, if_pos hdup]

/-- What an insertion does to the mark of the root: a node without the flag does no harm, and one
with the flag only in an empty tree, as a duplicate, or if it comes to the root itself. -/
theorem RootOnly.insert_iff (h : RootOnly t) (newn : RbNode α) :
    RootOnly (insert cmp t newn).1 ↔ (newn.root = true → t = nil ∨
      (search cmp newn.data (t.map RbNode.data)).isSome = true ∨
      lands cmp newn.data t = true) := by
  rw [← insertRecursive_dup]
  cases t with
  | nil => exact iff_of_true ⟨rfl, rfl, rfl⟩ fun _ => Or.inl rfl
  | node c l v r =>
    rw [insert]
    dsimp only
    cases hdup : (insertRecursive cmp newn (node c l v r)).2 with
    | true =>
      rw [if_pos rfl]
      exact iff_of_true (h.insertRecursive hdup) fun _ => Or.inr (Or.inl rfl)
    | false =>
      rw [if_neg Bool.false_ne_true]
      rcases walk_of_new hdup with ⟨dir, hcmp⟩
      rw [eq_join c l v r dir] at h hdup ⊢
      generalize (node c l v r).child dir = x at h hdup ⊢
      generalize (node c l v r).child dir.other = y at h hdup ⊢
      rcases topFlag_join.mp h with ⟨-, hx, hy⟩
      have hflags := (flags_insertRecursive cmp newn hx).1
      rw [insertRecursive_join c y hcmp] at hdup ⊢
      rw [if_neg (by rw [hdup]; exact Bool.false_ne_true)] at hflags
      rw [rootOnly_insertBalance c hy (hflags ▸ Bool.toNat_le newn.root)
        (insertRecursive_leaf hx), hflags, lands_join c x y hcmp]
      cases hnew : newn.root with
      | false => simp
      | true =>
        rw [lifts_iff hnew hx hdup]
        cases dir <;> simp [join]

/-! ## Extraction -/

variable {b : Bool}

lemma topFlag_node {l r : FlagTree α} (hv : v.root = b) (hl : flags l = 0) (hr : flags r = 0) :
    TopFlag b (node c l v r) :=
  ⟨hv, hl, hr⟩

section

variable (h : TopFlag b t)
include h

lemma TopFlag.rotate (dir : Dir) : TopFlag b (rotate t dir) := by
  cases t with
  | nil => cases dir <;> exact trivial
  | node c l v r =>
    rw [eq_join c l v r dir] at h ⊢
    rcases topFlag_join.mp h with ⟨hv, hx, hs⟩
    generalize (node c l v r).child dir = x at hx ⊢
    generalize (node c l v r).child dir.other = s at hs ⊢
    cases s with
    | nil =>
      have hnil : FlagTree.rotate (join c v dir x nil) dir = nil := by
        rcases v with ⟨v, _ | _⟩ <;> cases dir <;> rfl
      rw [hnil]
      exact trivial
    | node c' l' w r' =>
      rw [eq_join c' l' w r' dir] at hs ⊢
      rcases topFlag_join.mp (flags_eq_zero.mp hs) with ⟨hw, hy, hz⟩
      rw [rotate_join, topFlag_join, flags_join]
      simp [hv, hw, hx, hy, hz]

lemma TopFlag.doubleRotate (dir : Dir) : TopFlag b (doubleRotate t dir) := by
  have hchild : flags (FlagTree.rotate (t.child dir.other) dir.other) = 0 :=
    flags_eq_zero.mpr ((flags_eq_zero.mp (h.child dir.other)).rotate dir.other)
  exact (h.setChild hchild dir.other).rotate dir

/-- The balancing of an extraction moves no flag away from the root. -/
lemma TopFlag.extractBalance (dir : Dir) :
    TopFlag b (extractBalance t dir).1 := by
  -- the balancing below a node that has gone down, or of the root itself
  have hbalanced : ∀ {b : Bool} {p : FlagTree α} (save : Color), TopFlag b p →
      TopFlag b ((p.setChild dir.other ((p.child dir.other).paint .red)).paint .black) ∧
        TopFlag b (((if ((p.child dir.other).child dir.other).isRed then FlagTree.rotate p dir
          else FlagTree.doubleRotate p dir).paint save).paintChildren .black) := by
    intro b p save hp
    constructor
    · apply TopFlag.paint
      apply hp.setChild
      rw [flags_paint, hp.child]
    · apply TopFlag.paintChildren
      apply TopFlag.paint
      split
      · exact hp.rotate dir
      · exact hp.doubleRotate dir
  unfold FlagTree.extractBalance
  dsimp only
  cases (t.child dir.other).isRed with
  | false =>
    simp only [Bool.false_eq_true, if_false]
    split
    · exact h
    · split
      · exact (hbalanced .red h).1
      · exact (hbalanced _ h).2
  | true =>
    simp only [if_true]
    have hdown := h.rotate dir
    have hp := flags_eq_zero.mp (hdown.child dir)
    split
    · exact hdown
    · split
      · exact hdown.setChild (flags_eq_zero.mpr (hbalanced .red hp).1) dir
      · apply hdown.setChild
        rw [flags_paint]
        exact flags_eq_zero.mpr (hbalanced _ hp).2

lemma TopFlag.rebalance (dir : Dir) (done : Bool) (retv : Option (RbNode α)) :
    TopFlag b (rebalance t dir done retv).1 := by
  unfold FlagTree.rebalance
  split
  · exact h
  · exact h.extractBalance dir

end

/-- The recursion of an extraction leaves no flag below the root; the root loses its flag if a
child takes its place. -/
lemma TopFlag.extractRecursive (cmp : α → α → Ordering) (h : TopFlag b t) (target : α) :
    TopFlag b (extractRecursive cmp t target).1 ∨
      TopFlag false (extractRecursive cmp t target).1 := by
  induction t generalizing b target with
  | nil => exact Or.inl trivial
  | node c l v r ihl ihr =>
    rcases h with ⟨hv, hl, hr⟩
    have hleft : ∀ target, flags (FlagTree.extractRecursive cmp l target).1 = 0 :=
      fun target => flags_eq_zero.mpr ((ihl (flags_eq_zero.mp hl) target).elim id id)
    have hright : flags (FlagTree.extractRecursive cmp r target).1 = 0 :=
      flags_eq_zero.mpr ((ihr (flags_eq_zero.mp hr) target).elim id id)
    rw [FlagTree.extractRecursive]
    cases cmp v.data target with
    | gt => exact Or.inl ((topFlag_node hv (hleft target) hr).rebalance ..)
    | lt => exact Or.inl ((topFlag_node hv hl hright).rebalance ..)
    | eq =>
      dsimp only
      split
      · have hsave : TopFlag false (if l.isNil then r else l) := by
          split
          · exact flags_eq_zero.mp hr
          · exact flags_eq_zero.mp hl
        generalize (if l.isNil then r else l) = save at hsave
        apply Or.inr
        split
        · exact hsave
        · split
          · exact hsave.paint .black
          · exact hsave
      · exact Or.inl ((topFlag_node (v := { heir v l with root := v.root }) hv (hleft _)
          hr).rebalance ..)

/-- An extraction keeps the mark of the root. -/
theorem RootOnly.extract (h : RootOnly t) (target : α) :
    RootOnly (extract cmp t target).1 := by
  cases t with
  | nil => exact trivial
  | node c l v r =>
    rcases TopFlag.extractRecursive cmp h target with h | h
    · exact (h.paint .black).setRoot true
    · exact (h.paint .black).setRoot true

end FlagTree

/-! ## Runs -/

/-- Trees and the nodes that are in none of them. -/
structure Forest (ι α : Type) where
  trees : ι → FlagTree α
  pool : List (RbNode α)

/-- A call on one of the trees: the insertion of a node of the pool, or an extraction. -/
inductive ForestOp (ι α : Type) where
  | insert (i : ι) (k : Nat)
  | extract (i : ι) (target : α)

namespace Forest

open FlagTree

variable {ι α : Type} [DecidableEq ι] (cmp : α → α → Ordering)

/-- A call; a node leaves the pool when it is inserted and comes back when it is extracted. -/
def exec (s : Forest ι α) : ForestOp ι α → Forest ι α
  | .insert i k =>
    match s.pool[k]? with
    | none => s
    | some newn =>
      let (root, retv) := FlagTree.insert cmp (s.trees i) newn
      { trees := Function.update s.trees i root
        pool := if retv.isSome then s.pool.eraseIdx k else s.pool }
  | .extract i target =>
    let (root, retv) := FlagTree.extract cmp (s.trees i) target
    { trees := Function.update s.trees i root, pool := s.pool ++ retv.toList }

/-- The condition on a call: a node that still has `NODE_IS_ROOT` is only inserted into an
empty tree, with a key that is there, or where it comes to the root. -/
def Meets (s : Forest ι α) : ForestOp ι α → Prop
  | .insert i k => ∀ newn, s.pool[k]? = some newn → newn.root = true → s.trees i = nil ∨
      (search cmp newn.data ((s.trees i).map RbNode.data)).isSome = true ∨
      lands cmp newn.data (s.trees i) = true
  | .extract _ _ => True

/-- Every tree has one mark, at its root. -/
def Marked (s : Forest ι α) : Prop := ∀ i, RootOnly (s.trees i)

variable {cmp} {s : Forest ι α}

lemma marked_update {i : ι} {root : FlagTree α} {pool : List (RbNode α)} (h : s.Marked) :
    Marked ⟨update s.trees i root, pool⟩ ↔ RootOnly root := by
  constructor
  · intro hmarked
    have hroot := hmarked i
    dsimp only at hroot
    rw [update_self] at hroot
    exact hroot
  · intro hroot j
    dsimp only
    by_cases hj : j = i
    · rw [hj, update_self]
      exact hroot
    · rw [update_of_ne hj]
      exact h j

/-- One call keeps the marks exactly if it meets the condition. -/
lemma Marked.exec_iff (h : s.Marked) (op : ForestOp ι α) :
    (s.exec cmp op).Marked ↔ s.Meets cmp op := by
  cases op with
  | insert i k =>
    rw [exec, Meets]
    cases hpool : s.pool[k]? with
    | none => exact iff_of_true h fun newn hnewn => by contradiction
    | some newn =>
      simp only [Option.some.injEq, forall_eq']
      exact (marked_update h).trans ((h i).insert_iff newn)
  | extract i target => exact iff_of_true ((marked_update h).mpr ((h i).extract target)) trivial

end Forest

open Forest

variable {ι α : Type} [DecidableEq ι]

/-- In every run from empty trees in which each call meets the condition the root of every tree
that is not empty has `NODE_IS_ROOT`, and no other node of it; a further call keeps this
exactly if it meets the condition. -/
theorem one_root_mark {cmp : α → α → Ordering} {pool : List (RbNode α)} {s : Forest ι α}
    (hrun : Runs (Forest.exec cmp) (Meets cmp) ⟨fun _ => nil, pool⟩ s) :
    s.Marked ∧ ∀ op, (s.exec cmp op).Marked ↔ s.Meets cmp op := by
  have hmarked : s.Marked :=
    hrun.invariant (fun s op h hmeets => (h.exec_iff op).mpr hmeets) fun _ => trivial
  exact ⟨hmarked, hmarked.exec_iff⟩

/-- Two nodes without the flag, and no tree. -/
def twoNodes (ι : Type) : Forest ι Nat := ⟨fun _ => nil, [⟨1, false⟩, ⟨2, false⟩]⟩

/-- A node that was the root of one tree becomes that of another one, and a node is added. -/
theorem one_root_mark_two : Marked ([.insert false 0, .extract false 1, .insert true 1,
    .insert true 0].foldl (Forest.exec compare) (twoNodes Bool)) := by
  have hrun : Runs (Forest.exec compare) (Meets compare) (twoNodes Bool)
      ([.insert false 0, .extract false 1, .insert true 1,
        .insert true 0].foldl (Forest.exec compare) (twoNodes Bool)) := by
    simp only [List.foldl]
    apply Runs.snoc
    · apply Runs.snoc
      · apply Runs.snoc
        · apply Runs.single
          intro newn hnewn hroot
          exact Or.inl rfl
        · exact trivial
      · intro newn hnewn hroot
        exact Or.inl rfl
    · intro newn hnewn hroot
      cases hnewn
      contradiction
  exact (one_root_mark hrun).1

/-- The root of a tree of one node is extracted and inserted again, below another node: both
nodes have the flag. -/
theorem stale_mark : ¬Marked ([.insert () 0, .extract () 1, .insert () 0,
    .insert () 0].foldl (Forest.exec compare) (twoNodes Unit)) := by
  intro hmarked
  have hroot := (hmarked ()).2.1
  contradiction

end DiegOS.Support
