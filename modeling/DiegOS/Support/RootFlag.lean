import DiegOS.Support.RedBlackTree

/-!
# The root flag of the red-black tree

The nodes of `red_black_tree.c` carry `NODE_IS_ROOT` beside their colour.  A rotation
moves the flag up, an extraction copies it to the heir, and both operations set it at the end.
The functions that touch the flag are those of the tree with one step more; the others are used
as they are.

Main results:

- Theorem `insert_erase`, `extract_erase`: the flags decide nothing about links and
  colours.
- Theorem `rotate_join`, `doubleRotate_join`: the rotations move the flag up.
-/

namespace DiegOS.Support

open DiegOS.Support.Tree Lib.OrderedList

/-- The data of a node and its `NODE_IS_ROOT`. -/
structure RbNode (α : Type) where
  data : α
  root : Bool
deriving DecidableEq

/-- A tree of nodes with their colours and root flags. -/
abbrev FlagTree (α : Type) : Type := Tree (RbNode α)

namespace FlagTree

variable {α : Type}

/-! ## The code -/

/-- `node_is_root` -/
def isRoot : FlagTree α → Bool
  | nil => false
  | node _ _ v _ => v.root

/-- `set_node_as_root` and `clear_node_as_root` -/
def setRoot (flag : Bool) : FlagTree α → FlagTree α
  | nil => nil
  | node c l v r => node c l { v with root := flag } r

/-- `rotate_right` and `rotate_left` with the flag. -/
def rotate (root : FlagTree α) (dir : Dir) : FlagTree α :=
  let save := Tree.rotate root dir
  if isRoot root then setRoot true (save.setChild dir (setRoot false (save.child dir))) else save

def doubleRotate (root : FlagTree α) (dir : Dir) : FlagTree α :=
  rotate (root.setChild dir.other (rotate (root.child dir.other) dir.other)) dir

/-- The balancing of `insert_recursive`. -/
def insertBalance (root : FlagTree α) (dir : Dir) : FlagTree α :=
  if (root.child dir).isRed then
    if (root.child dir.other).isRed then (root.paint .red).paintChildren .black
    else if ((root.child dir).child dir).isRed then rotate root dir.other
    else if ((root.child dir).child dir.other).isRed then doubleRotate root dir.other
    else root
  else root

variable (cmp : α → α → Ordering)

/-- `insert_recursive`; the new node keeps the flag it comes with. -/
def insertRecursive (newn : RbNode α) : FlagTree α → FlagTree α × Bool
  | nil => (node .red nil newn nil, false)
  | node c l v r =>
    match cmp v.data newn.data with
    | .eq => (node c l v r, true)
    | .gt =>
      (insertBalance ((node c l v r).setChild .left (insertRecursive newn l).1) .left,
        (insertRecursive newn l).2)
    | .lt =>
      (insertBalance ((node c l v r).setChild .right (insertRecursive newn r).1) .right,
        (insertRecursive newn r).2)

/-- `rbtree_insert` of a node that is not linked. -/
def insert (root : FlagTree α) (newn : RbNode α) : FlagTree α × Option α :=
  match root with
  | nil => (node .black nil { newn with root := true } nil, some newn.data)
  | node c l v r =>
    let (root, dup) := insertRecursive cmp newn (node c l v r)
    if dup then (root, none) else (setRoot true (root.paint .black), some newn.data)

/-- `rbtree_extract_balance`; the flag of the result is `done`. -/
def extractBalance (root : FlagTree α) (dir : Dir) : FlagTree α × Bool :=
  let down := (root.child dir.other).isRed
  let root := if down then rotate root dir else root
  let p := if down then root.child dir else root
  let s := p.child dir.other
  if s.isNil then (root, false)
  else if !(s.child .left).isRed && !(s.child .right).isRed then
    let p' := (p.setChild dir.other (s.paint .red)).paint .black
    (if down then root.setChild dir p' else p', p.isRed)
  else
    let save := if root.isRed then Color.red else Color.black
    let p' := if (s.child dir.other).isRed then rotate p dir else doubleRotate p dir
    let p' := (p'.paint save).paintChildren .black
    (if down then root.setChild dir (p'.paint .red) else p', true)

/-- The last step of `rbtree_extract_recursive`. -/
def rebalance (root : FlagTree α) (dir : Dir) (done : Bool) (retv : Option (RbNode α)) :
    FlagTree α × Bool × Option (RbNode α) :=
  if done then (root, true, retv)
  else ((extractBalance root dir).1, (extractBalance root dir).2, retv)

/-- `rbtree_extract_recursive`; the heir takes colour and flag of the node that leaves, and
that one keeps its own. -/
def extractRecursive : FlagTree α → α → FlagTree α × Bool × Option (RbNode α)
  | nil, _ => (nil, true, none)
  | node c l v r, target =>
    match cmp v.data target with
    | .eq =>
      if l.isNil || r.isNil then
        let save := if l.isNil then r else l
        if c = .red then (save, true, some v)
        else if save.isRed then (save.paint .black, true, some v)
        else (save, false, some v)
      else
        let (l', done, _) := extractRecursive l (heir v l).data
        rebalance (node c l' { heir v l with root := v.root } r) .left done (some v)
    | .gt =>
      let (l', done, retv) := extractRecursive l target
      rebalance (node c l' v r) .left done retv
    | .lt =>
      let (r', done, retv) := extractRecursive r target
      rebalance (node c l v r') .right done retv

/-- `rbtree_extract`; the node that is returned has the flag it leaves with. -/
def extract (root : FlagTree α) (target : α) : FlagTree α × Option (RbNode α) :=
  match root with
  | nil => (nil, none)
  | node c l v r =>
    let (root, _, retval) := extractRecursive cmp (node c l v r) target
    (setRoot true (root.paint .black), retval)

end FlagTree

/-! ## Without the flags -/

namespace Tree

variable {α β : Type}

/-- Other data in the same links and colours. -/
def map (f : α → β) : Tree α → Tree β
  | nil => nil
  | node c l v r => node c (l.map f) (f v) (r.map f)

@[simp] lemma map_paint (f : α → β) (c : Color) (t : Tree α) :
    (t.paint c).map f = (t.map f).paint c := by
  cases t <;> simp [paint, map]

@[simp] lemma isRed_map (f : α → β) (t : Tree α) : (t.map f).isRed = t.isRed := by
  cases t with
  | nil => rfl
  | node c l v r => cases c <;> rfl

@[simp] lemma isNil_map (f : α → β) (t : Tree α) : (t.map f).isNil = t.isNil := by
  cases t <;> rfl

@[simp] lemma map_child (f : α → β) (t : Tree α) (dir : Dir) :
    (t.child dir).map f = (t.map f).child dir := by
  cases t <;> cases dir <;> rfl

@[simp] lemma map_setChild (f : α → β) (t s : Tree α) (dir : Dir) :
    (t.setChild dir s).map f = (t.map f).setChild dir (s.map f) := by
  cases t <;> cases dir <;> rfl

@[simp] lemma map_rotate (f : α → β) (t : Tree α) (dir : Dir) :
    (t.rotate dir).map f = (t.map f).rotate dir := by
  simp [rotate]

@[simp] lemma map_paintChildren (f : α → β) (c : Color) (t : Tree α) :
    (t.paintChildren c).map f = (t.map f).paintChildren c := by
  simp [paintChildren]

@[simp] lemma toList_map (f : α → β) (t : Tree α) : (t.map f).toList = t.toList.map f := by
  induction t with
  | nil => rfl
  | node c l v r ihl ihr => simp [map, toList, ihl, ihr]

lemma map_heir (f : α → β) (v : α) (t : Tree α) : heir (f v) (t.map f) = f (heir v t) := by
  induction t generalizing v with
  | nil => rfl
  | node c l w r ihl ihr => exact ihr w

end Tree

namespace FlagTree

variable {α : Type} {cmp : α → α → Ordering} {t l r : FlagTree α} {v : RbNode α} {dir : Dir}

lemma setChild_child {α : Type} (t : Tree α) (dir : Dir) : t.setChild dir (t.child dir) = t := by
  cases t <;> cases dir <;> rfl

@[simp] lemma map_setRoot (flag : Bool) (t : FlagTree α) :
    (setRoot flag t).map RbNode.data = t.map RbNode.data := by
  cases t <;> rfl

@[simp] lemma map_rotate (t : FlagTree α) (dir : Dir) :
    (rotate t dir).map RbNode.data = (t.map RbNode.data).rotate dir := by
  unfold rotate
  dsimp only
  split
  · simp only [map_setRoot, map_setChild, map_child, Tree.map_rotate, setChild_child]
  · exact Tree.map_rotate ..

@[simp] lemma map_doubleRotate (t : FlagTree α) (dir : Dir) :
    (doubleRotate t dir).map RbNode.data = (t.map RbNode.data).doubleRotate dir := by
  simp [doubleRotate, Tree.doubleRotate]

lemma map_insertBalance (t : FlagTree α) (dir : Dir) :
    (insertBalance t dir).map RbNode.data = (t.map RbNode.data).insertBalance dir := by
  unfold insertBalance Tree.insertBalance
  simp only [apply_ite (Tree.map RbNode.data), ← map_child, isRed_map]
  simp

/-- The flag of a new node decides nothing. -/
lemma insertRecursive_erase (cmp : α → α → Ordering) (newn : RbNode α) (t : FlagTree α) :
    ((insertRecursive cmp newn t).1.map RbNode.data, (insertRecursive cmp newn t).2) =
      Tree.insertRecursive cmp newn.data (t.map RbNode.data) := by
  induction t with
  | nil => rfl
  | node c l v r ihl ihr =>
    rw [insertRecursive, Tree.map, Tree.insertRecursive]
    cases cmp v.data newn.data with
    | eq => rfl
    | gt =>
      rw [← ihl]
      simp [map_insertBalance, Tree.map]
    | lt =>
      rw [← ihr]
      simp [map_insertBalance, Tree.map]

theorem insert_erase (newn : RbNode α) (t : FlagTree α) :
    ((insert cmp t newn).1.map RbNode.data, (insert cmp t newn).2) =
      Tree.insert cmp (t.map RbNode.data) newn.data := by
  cases t with
  | nil => rfl
  | node c l v r =>
    rw [insert, Tree.map, Tree.insert]
    have hrec := insertRecursive_erase cmp newn (node c l v r)
    rw [Tree.map] at hrec
    rw [← hrec]
    dsimp only
    split
    · rfl
    · simp

lemma extractBalance_erase (t : FlagTree α) (dir : Dir) :
    ((extractBalance t dir).1.map RbNode.data, (extractBalance t dir).2) =
      (t.map RbNode.data).extractBalance dir := by
  unfold extractBalance Tree.extractBalance
  dsimp only
  simp only [← map_child, isRed_map]
  cases hdown : (t.child dir.other).isRed with
  | true =>
    simp only [if_true, ← map_rotate, ← map_child, isRed_map, isNil_map]
    split
    · rfl
    · split
      · simp
      · simp [apply_ite (Tree.map RbNode.data)]
  | false =>
    simp only [Bool.false_eq_true, if_false, ← map_child, isRed_map, isNil_map]
    split
    · rfl
    · split
      · simp
      · simp [apply_ite (Tree.map RbNode.data)]

lemma rebalance_erase (t : FlagTree α) (dir : Dir) (done : Bool) (retv : Option (RbNode α)) :
    ((rebalance t dir done retv).1.map RbNode.data, (rebalance t dir done retv).2.1,
        (rebalance t dir done retv).2.2.map RbNode.data) =
      Tree.rebalance (t.map RbNode.data) dir done (retv.map RbNode.data) := by
  unfold rebalance Tree.rebalance
  split
  · rfl
  · rw [← extractBalance_erase]

lemma extractRecursive_erase (cmp : α → α → Ordering) (t : FlagTree α) (target : α) :
    ((extractRecursive cmp t target).1.map RbNode.data, (extractRecursive cmp t target).2.1,
        (extractRecursive cmp t target).2.2.map RbNode.data) =
      Tree.extractRecursive cmp (t.map RbNode.data) target := by
  induction t generalizing target with
  | nil => rfl
  | node c l v r ihl ihr =>
    rw [extractRecursive, Tree.map, Tree.extractRecursive]
    cases cmp v.data target with
    | gt =>
      dsimp only
      rw [← ihl, rebalance_erase]
      rfl
    | lt =>
      rw [← ihr, rebalance_erase]
      rfl
    | eq =>
      dsimp only
      rw [isNil_map, isNil_map, map_heir, ← ihl]
      by_cases hnil : (l.isNil || r.isNil) = true
      · rw [if_pos hnil, if_pos hnil]
        have hsave : (if l.isNil then r.map RbNode.data else l.map RbNode.data) =
            (if l.isNil then r else l).map RbNode.data := by
          split <;> rfl
        rw [hsave, isRed_map]
        generalize (if l.isNil then r else l) = save
        by_cases hred : c = .red
        · rw [if_pos hred, if_pos hred]
          rfl
        · rw [if_neg hred, if_neg hred]
          split
          · simp
          · rfl
      · rw [if_neg hnil, if_neg hnil, rebalance_erase]
        rfl

/-- On a search tree the extraction with flags is the one without, and it takes out the node with
the key of the target. -/
theorem extract_erase [Std.TransCmp cmp] (h : RedBlack cmp (t.map RbNode.data)) (target : α) :
    ((extract cmp t target).1.map RbNode.data, (extract cmp t target).2.map RbNode.data) =
        Tree.extract cmp (t.map RbNode.data) target ∧
      ((extract cmp t target).1.map RbNode.data).toList =
        remove cmp target (t.map RbNode.data).toList ∧
      (extract cmp t target).2.map RbNode.data = find cmp target (t.map RbNode.data).toList := by
  have herase : ((extract cmp t target).1.map RbNode.data,
      (extract cmp t target).2.map RbNode.data) = Tree.extract cmp (t.map RbNode.data) target := by
    cases t with
    | nil => rfl
    | node c l v r =>
      rw [extract, Tree.map, Tree.extract]
      have hrec := extractRecursive_erase cmp (node c l v r) target
      rw [Tree.map] at hrec
      rw [← hrec]
      simp
  obtain ⟨hlist, hretv, -⟩ := h.extract target
  rw [← herase] at hlist hretv
  exact ⟨herase, hlist, hretv⟩

/-- A root with two red children. -/
def threeNodes : FlagTree Nat :=
  node .black (node .red nil ⟨1, false⟩ nil) ⟨2, true⟩ (node .red nil ⟨3, false⟩ nil)

/-- The root is extracted. -/
theorem extract_erase_root :
    ((extract compare threeNodes 2).1.map RbNode.data).toList = [1, 3] ∧
      (extract compare threeNodes 2).2.map RbNode.data = some 2 := by
  have hbal : RedBlack compare (threeNodes.map RbNode.data) :=
    redBlack_iff.mpr ⟨by unfold Sorted; decide, rfl, 1,
      .black (.red .nil .nil rfl rfl) (.red .nil .nil rfl rfl)⟩
  exact (extract_erase hbal 2).2

/-! ## The flags -/

/-- The number of nodes with the flag. -/
def flags : FlagTree α → Nat
  | nil => 0
  | node _ l v r => flags l + v.root.toNat + flags r

/-- No node has the flag but the root, which has it or not. -/
def TopFlag (b : Bool) : FlagTree α → Prop
  | nil => True
  | node _ l v r => v.root = b ∧ flags l = 0 ∧ flags r = 0

/-- The root of a tree that is not empty has the flag, and no other node. -/
def RootOnly (t : FlagTree α) : Prop := TopFlag true t

variable {b : Bool} {x y : FlagTree α} {c : Color} {newn : RbNode α}

lemma flags_eq_zero : flags t = 0 ↔ TopFlag false t := by
  cases t with
  | nil => exact iff_of_true rfl trivial
  | node c l v r =>
    cases hroot : v.root <;> simp [flags, TopFlag, hroot]

lemma TopFlag.child (h : TopFlag b t) (dir : Dir) : flags (t.child dir) = 0 := by
  cases t with
  | nil => rfl
  | node c l v r =>
    cases dir with
    | left => exact h.2.1
    | right => exact h.2.2

lemma TopFlag.setChild {s : FlagTree α} (h : TopFlag b t) (hs : flags s = 0) (dir : Dir) :
    TopFlag b (t.setChild dir s) := by
  cases t with
  | nil => exact trivial
  | node c l v r =>
    cases dir with
    | left => exact ⟨h.1, hs, h.2.2⟩
    | right => exact ⟨h.1, h.2.1, hs⟩

@[simp] lemma flags_paint (c : Color) (t : FlagTree α) : flags (t.paint c) = flags t := by
  cases t <;> rfl

lemma TopFlag.paint (h : TopFlag b t) (c : Color) : TopFlag b (t.paint c) := by
  cases t <;> exact h

lemma TopFlag.paintChildren (h : TopFlag b t) (c : Color) : TopFlag b (t.paintChildren c) := by
  have hleft : flags ((t.child .left).paint c) = 0 := by
    rw [flags_paint, h.child]
  have hright : flags ((t.child .right).paint c) = 0 := by
    rw [flags_paint, h.child]
  exact (h.setChild hleft .left).setChild hright .right

/-- A flag that is set or cleared at the top. -/
lemma TopFlag.setRoot (h : TopFlag b t) (b' : Bool) : TopFlag b' (setRoot b' t) := by
  cases t with
  | nil => exact trivial
  | node c l v r => exact ⟨rfl, h.2⟩

/-- A rotation moves the flag up. -/
theorem rotate_join (c c' : Color) (v w : RbNode α) (dir : Dir) (x y z : FlagTree α) :
    rotate (join c v dir x (join c' w dir y z)) dir =
      join .black { w with root := v.root || w.root } dir
        (join .red { v with root := false } dir x y) z := by
  rcases v with ⟨v, _ | _⟩ <;> cases dir <;> rfl

theorem doubleRotate_join (c c' c'' : Color) (u v w : RbNode α) (dir : Dir)
    (x y z z' : FlagTree α) :
    doubleRotate (join c v dir x (join c' w dir (join c'' u dir y z) z')) dir =
      join .black { u with root := v.root || (w.root || u.root) } dir
        (join .red { v with root := false } dir x y)
        (join .red { w with root := false } dir z z') := by
  rcases v with ⟨v, _ | _⟩ <;> rcases w with ⟨w, _ | _⟩ <;> cases dir <;> rfl

end FlagTree
end DiegOS.Support
