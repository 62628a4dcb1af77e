import DiegOS.Lib.OrderedList

/-!
# The red-black tree

`red_black_tree.c`: insertion and extraction by recursion, with the rotations and colour
changes on the way back.  The links and the colours are modelled; the root flag of a node is
never used for them.

Main results:

- Theorem `insertRecursive_balanced`, `extractRecursive_balanced`: what the
  recursions leave of the balance.
- Theorem `insertRecursive_toList`, `extractRecursive_toList`: what they do to the
  nodes in order.
- Theorem `red_black_of_run`: the invariants after every run in which no duplicate turns
  the root red.
-/

namespace DiegOS.Support

open Lib Std

variable {α : Type}

/-! ## The code -/

/-- `NODE_IS_RED` is set or not. -/
inductive Color where
  | red | black
deriving DecidableEq

/-- `DIR_LEFT` and `DIR_RIGHT` -/
inductive Dir where
  | left | right
deriving DecidableEq

/-- `!dir` -/
def Dir.other : Dir → Dir
  | .left => .right
  | .right => .left

/-- `rbtree_node_t` with the data behind it; `NULL` is `nil`. -/
inductive Tree (α : Type) where
  | nil
  | node (color : Color) (left : Tree α) (data : α) (right : Tree α)
deriving DecidableEq

namespace Tree

/-- `color_node_red` and `color_node_black` -/
def paint (color : Color) : Tree α → Tree α
  | nil => nil
  | node _ l v r => node color l v r

/-- `node_is_red` -/
def isRed : Tree α → Bool
  | node .red _ _ _ => true
  | _ => false

/-- There is no node. -/
def isNil : Tree α → Bool
  | nil => true
  | _ => false

/-- `get_child` -/
def child (root : Tree α) (dir : Dir) : Tree α :=
  match root, dir with
  | nil, _ => nil
  | node _ l _ _, .left => l
  | node _ _ _ r, .right => r

def setChild (root : Tree α) (dir : Dir) (target : Tree α) : Tree α :=
  match root, dir with
  | nil, _ => nil
  | node c _ v r, .left => node c target v r
  | node c l v _, .right => node c l v target

/-- `rotate`, for a node that has the child that goes up. -/
def rotate (root : Tree α) (dir : Dir) : Tree α :=
  let save := root.child dir.other
  (save.setChild dir ((root.setChild dir.other (save.child dir)).paint .red)).paint .black

def doubleRotate (root : Tree α) (dir : Dir) : Tree α :=
  (root.setChild dir.other ((root.child dir.other).rotate dir.other)).rotate dir

/-- The colours of both children. -/
def paintChildren (color : Color) (root : Tree α) : Tree α :=
  (root.setChild .left ((root.child .left).paint color)).setChild .right
    ((root.child .right).paint color)

/-- The balancing of `insert_recursive`. -/
def insertBalance (root : Tree α) (dir : Dir) : Tree α :=
  if (root.child dir).isRed then
    if (root.child dir.other).isRed then (root.paint .red).paintChildren .black
    else if ((root.child dir).child dir).isRed then root.rotate dir.other
    else if ((root.child dir).child dir.other).isRed then root.doubleRotate dir.other
    else root
  else root

variable (cmp : α → α → Ordering)

/-- `insert_recursive`; the flag says that the key was there. -/
def insertRecursive (newn : α) : Tree α → Tree α × Bool
  | nil => (node .red nil newn nil, false)
  | node c l v r =>
    match cmp v newn with
    | .eq => (node c l v r, true)
    | .gt =>
      (((node c l v r).setChild .left (insertRecursive newn l).1).insertBalance .left,
        (insertRecursive newn l).2)
    | .lt =>
      (((node c l v r).setChild .right (insertRecursive newn r).1).insertBalance .right,
        (insertRecursive newn r).2)

/-- `rbtree_insert` of a node that is not linked. -/
def insert (root : Tree α) (newn : α) : Tree α × Option α :=
  match root with
  | nil => (node .black nil newn nil, some newn)
  | node c l v r =>
    let (root, dup) := insertRecursive cmp newn (node c l v r)
    if dup then (root, none) else (root.paint .black, some newn)

/-- `rbtree_extract_balance`; the flag is `done`. -/
def extractBalance (root : Tree α) (dir : Dir) : Tree α × Bool :=
  let down := (root.child dir.other).isRed
  let root := if down then root.rotate dir else root
  -- the node whose child is too low: the root, or the root that has gone down
  let p := if down then root.child dir else root
  let s := p.child dir.other
  if s.isNil then (root, false)
  else if !(s.child .left).isRed && !(s.child .right).isRed then
    let p' := (p.setChild dir.other (s.paint .red)).paint .black
    (if down then root.setChild dir p' else p', p.isRed)
  else
    let save := if root.isRed then Color.red else Color.black
    let p' := if (s.child dir.other).isRed then p.rotate dir else p.doubleRotate dir
    let p' := (p'.paint save).paintChildren .black
    (if down then root.setChild dir (p'.paint .red) else p', true)

/-- The loop that looks for the last node of a subtree. -/
def heir (v : α) : Tree α → α
  | nil => v
  | node _ _ w r => heir w r

/-- The last step of `rbtree_extract_recursive`. -/
def rebalance (root : Tree α) (dir : Dir) (done : Bool) (retv : Option α) :
    Tree α × Bool × Option α :=
  if done then (root, true, retv)
  else ((root.extractBalance dir).1, (root.extractBalance dir).2, retv)

/-- `rbtree_extract_recursive`; the flag is `done`. -/
def extractRecursive : Tree α → α → Tree α × Bool × Option α
  | nil, _ => (nil, true, none)
  | node c l v r, target =>
    match cmp v target with
    | .eq =>
      if l.isNil || r.isNil then
        let save := if l.isNil then r else l
        if c = .red then (save, true, some v)
        else if save.isRed then (save.paint .black, true, some v)
        else (save, false, some v)
      else
        let (l', done, _) := extractRecursive l (heir v l)
        rebalance (node c l' (heir v l) r) .left done (some v)
    | .gt =>
      let (l', done, retv) := extractRecursive l target
      rebalance (node c l' v r) .left done retv
    | .lt =>
      let (r', done, retv) := extractRecursive r target
      rebalance (node c l v r') .right done retv

/-- `rbtree_extract` -/
def extract (root : Tree α) (target : α) : Tree α × Option α :=
  match root with
  | nil => (nil, none)
  | node c l v r =>
    let (root, _, retval) := extractRecursive cmp (node c l v r) target
    (root.paint .black, retval)

/-- The nodes in order. -/
def toList : Tree α → List α
  | nil => []
  | node _ l v r => l.toList ++ v :: r.toList

/-! ## Balance -/

/-- No red node has a red child, and every path has `n` black nodes. -/
inductive Balanced : Tree α → Nat → Prop where
  | nil : Balanced nil 0
  | red {l r : Tree α} {v : α} {n : Nat} (hl : Balanced l n) (hr : Balanced r n)
      (hlb : l.isRed = false) (hrb : r.isRed = false) : Balanced (node .red l v r) n
  | black {l r : Tree α} {v : α} {n : Nat} (hl : Balanced l n) (hr : Balanced r n) :
      Balanced (node .black l v r) (n + 1)

/-- A red node with at most one red child. -/
inductive RedRed : Tree α → Nat → Prop where
  | node {l r : Tree α} {v : α} {n : Nat} (hl : Balanced l n) (hr : Balanced r n)
      (hone : l.isRed = false ∨ r.isRed = false) : RedRed (node .red l v r) n

variable {t l r root : Tree α} {v x : α} {n : Nat} {dir : Dir}

/-- The node that one side of the tree belongs to. -/
def join (c : Color) (v : α) (dir : Dir) (x y : Tree α) : Tree α :=
  match dir with
  | .left => node c x v y
  | .right => node c y v x

@[simp] lemma child_join (c : Color) (v : α) (dir : Dir) (x y : Tree α) :
    (join c v dir x y).child dir = x := by
  cases dir <;> rfl

@[simp] lemma child_other_join (c : Color) (v : α) (dir : Dir) (x y : Tree α) :
    (join c v dir x y).child dir.other = y := by
  cases dir <;> rfl

@[simp] lemma other_other (dir : Dir) : dir.other.other = dir := by
  cases dir <;> rfl

lemma join_other (c : Color) (v : α) (dir : Dir) (x y : Tree α) :
    join c v dir.other x y = join c v dir y x := by
  cases dir <;> rfl

lemma setChild_join (c : Color) (v : α) (dir : Dir) (x y z : Tree α) :
    (join c v dir x y).setChild dir z = join c v dir z y := by
  cases dir <;> rfl

lemma paint_join (c c' : Color) (v : α) (dir : Dir) (x y : Tree α) :
    (join c v dir x y).paint c' = join c' v dir x y := by
  cases dir <;> rfl

lemma isRed_join (c : Color) (v : α) (dir : Dir) (x y : Tree α) :
    (join c v dir x y).isRed = decide (c = .red) := by
  cases dir <;> cases c <;> rfl

lemma paintChildren_join (c c' : Color) (v : α) (dir : Dir) (x y : Tree α) :
    (join c v dir x y).paintChildren c' = join c v dir (x.paint c') (y.paint c') := by
  cases dir <;> rfl

/-- A single rotation. -/
lemma rotate_join (c c' : Color) (v w : α) (dir : Dir) (x y z : Tree α) :
    (join c v dir x (join c' w dir y z)).rotate dir =
      join .black w dir (join .red v dir x y) z := by
  cases dir <;> rfl

/-- A double rotation. -/
lemma doubleRotate_join (c c' c'' : Color) (u v w : α) (dir : Dir) (x y z z' : Tree α) :
    (join c v dir x (join c' w dir (join c'' u dir y z) z')).doubleRotate dir =
      join .black u dir (join .red v dir x y) (join .red w dir z z') := by
  cases dir <;> rfl

lemma Balanced.join_red {x y : Tree α} (hx : Balanced x n) (hy : Balanced y n)
    (hxb : x.isRed = false) (hyb : y.isRed = false) (dir : Dir) :
    Balanced (join .red v dir x y) n := by
  cases dir with
  | left => exact .red hx hy hxb hyb
  | right => exact .red hy hx hyb hxb

lemma Balanced.join_black {x y : Tree α} (hx : Balanced x n) (hy : Balanced y n) (dir : Dir) :
    Balanced (join .black v dir x y) (n + 1) := by
  cases dir with
  | left => exact .black hx hy
  | right => exact .black hy hx

lemma balanced_join_red {x y : Tree α} : Balanced (join .red v dir x y) n ↔
    Balanced x n ∧ Balanced y n ∧ x.isRed = false ∧ y.isRed = false := by
  constructor
  · intro h
    cases dir with
    | left =>
      cases h with
      | red hx hy hxb hyb => exact ⟨hx, hy, hxb, hyb⟩
    | right =>
      cases h with
      | red hy hx hyb hxb => exact ⟨hx, hy, hxb, hyb⟩
  · rintro ⟨hx, hy, hxb, hyb⟩
    exact hx.join_red hy hxb hyb dir

lemma balanced_join_black {x y : Tree α} : Balanced (join .black v dir x y) n ↔
    ∃ m, n = m + 1 ∧ Balanced x m ∧ Balanced y m := by
  constructor
  · intro h
    cases dir with
    | left =>
      cases h with
      | black hx hy => exact ⟨_, rfl, hx, hy⟩
    | right =>
      cases h with
      | black hy hx => exact ⟨_, rfl, hx, hy⟩
  · rintro ⟨m, rfl, hx, hy⟩
    exact hx.join_black hy dir

/-- The sides of a balanced red tree. -/
lemma Balanced.of_red (h : Balanced t n) (hred : t.isRed = true) (dir : Dir) :
    ∃ v x y, t = join .red v dir x y ∧ Balanced x n ∧ Balanced y n ∧
      x.isRed = false ∧ y.isRed = false := by
  cases h with
  | nil | black => contradiction
  | @red l r v n hl hr hlb hrb =>
    cases dir with
    | left => exact ⟨v, l, r, rfl, hl, hr, hlb, hrb⟩
    | right => exact ⟨v, r, l, rfl, hr, hl, hrb, hlb⟩

/-- The sides of a balanced black tree. -/
lemma Balanced.of_black (h : Balanced t (n + 1)) (hblack : t.isRed = false) (dir : Dir) :
    ∃ v x y, t = join .black v dir x y ∧ Balanced x n ∧ Balanced y n := by
  cases h with
  | red => contradiction
  | @black l r v n hl hr =>
    cases dir with
    | left => exact ⟨v, l, r, rfl, hl, hr⟩
    | right => exact ⟨v, r, l, rfl, hr, hl⟩

/-- A red tree that turns black is higher. -/
lemma Balanced.paint_black (h : Balanced t n) (hred : t.isRed = true) :
    Balanced (t.paint .black) (n + 1) := by
  obtain ⟨v, x, y, rfl, hx, hy, -, -⟩ := h.of_red hred .left
  exact .black hx hy

lemma isRed_paint_black (t : Tree α) : (t.paint .black).isRed = false := by
  cases t <;> rfl

/-- A tree that turns black is balanced. -/
lemma Balanced.paint (h : Balanced t n) : ∃ m, Balanced (t.paint .black) m := by
  cases h with
  | nil => exact ⟨0, .nil⟩
  | red hl hr | black hl hr => exact ⟨_, .black hl hr⟩

lemma RedRed.paint (h : RedRed t n) : Balanced (t.paint .black) (n + 1) := by
  cases h with
  | node hl hr => exact .black hl hr

/-- The sides of a red tree with at most one red child. -/
lemma RedRed.sides (h : RedRed t n) (dir : Dir) :
    ∃ v x y, t = join .red v dir x y ∧ Balanced x n ∧ Balanced y n ∧
      (x.isRed = false ∨ y.isRed = false) := by
  cases h with
  | @node l r v n hl hr hone =>
    cases dir with
    | left => exact ⟨v, l, r, rfl, hl, hr, hone⟩
    | right => exact ⟨v, r, l, rfl, hr, hl, hone.symm⟩

lemma RedRed.join {x y : Tree α} (hx : Balanced x n) (hy : Balanced y n)
    (hyb : y.isRed = false) (dir : Dir) : RedRed (join .red v dir x y) n := by
  cases dir with
  | left => exact .node hx hy (.inr hyb)
  | right => exact .node hy hx (.inl hyb)

lemma Balanced.redRed (h : Balanced t n) (hred : t.isRed = true) : RedRed t n := by
  obtain ⟨v, x, y, rfl, hx, hy, -, hyb⟩ := h.of_red hred .left
  exact RedRed.join hx hy hyb .left

lemma RedRed.isRed (h : RedRed t n) : t.isRed = true := by
  cases h
  rfl

/-! ## Insertion -/

/-- A black node above a red node with a red child is balanced again. -/
lemma insertBalance_black {x y : Tree α} (hx : Balanced x n ∨ RedRed x n) (hy : Balanced y n)
    (dir : Dir) : Balanced ((join .black v dir x y).insertBalance dir) (n + 1) := by
  unfold insertBalance
  rw [child_join, child_other_join, paint_join, paintChildren_join]
  cases hred : x.isRed with
  | false =>
    have hx : Balanced x n := hx.resolve_right fun h => by
      rw [h.isRed] at hred
      contradiction
    exact hx.join_black hy dir
  | true =>
    have hx : RedRed x n := hx.elim (fun h => h.redRed hred) id
    rw [if_pos rfl]
    cases hyred : y.isRed with
    | true =>
      exact hx.paint.join_red (hy.paint_black hyred) (isRed_paint_black x)
        (isRed_paint_black y) dir
    | false =>
      obtain ⟨w, a, b, rfl, ha, hb, hone⟩ := hx.sides dir
      rw [if_neg Bool.false_ne_true, child_join, child_other_join]
      cases hared : a.isRed with
      | true =>
        have hbred : b.isRed = false := hone.resolve_left fun h => by
          rw [hared] at h
          contradiction
        rw [if_pos rfl, ← join_other, ← join_other .red, rotate_join]
        exact (hy.join_red hb hyred hbred _).join_black ha _
      | false =>
        rw [if_neg Bool.false_ne_true]
        cases hbred : b.isRed with
        | true =>
          obtain ⟨u, c, d, rfl, hc, hd, hcb, hdb⟩ := hb.of_red hbred dir.other
          rw [if_pos rfl, ← join_other, ← join_other .red, doubleRotate_join]
          exact (hy.join_red hc hyred hcb _).join_black (hd.join_red ha hdb hared _) _
        | false => exact (ha.join_red hb hared hbred dir).join_black hy dir

/-- A red node above a red node stays as it is. -/
lemma insertBalance_red {x y : Tree α} (hx : Balanced x n) (hyb : y.isRed = false)
    (dir : Dir) : (join .red v dir x y).insertBalance dir = join .red v dir x y := by
  unfold insertBalance
  rw [child_join, child_other_join, hyb, if_neg Bool.false_ne_true]
  cases hred : x.isRed with
  | false => exact if_neg Bool.false_ne_true
  | true =>
    obtain ⟨w, a, b, rfl, -, -, hab, hbb⟩ := hx.of_red hred dir
    rw [if_pos rfl, child_join, child_other_join, hab, hbb, if_neg Bool.false_ne_true,
      if_neg Bool.false_ne_true]

variable {cmp : α → α → Ordering}

/-- What the recursion of an insertion leaves of the balance. -/
theorem insertRecursive_balanced (cmp : α → α → Ordering) (x : α) (h : Balanced t n) :
    (t.isRed = false → Balanced (insertRecursive cmp x t).1 n) ∧
      (t.isRed = true → RedRed (insertRecursive cmp x t).1 n) := by
  induction h with
  | nil => exact ⟨fun _ => .red .nil .nil rfl rfl, fun hred => by contradiction⟩
  | @red l r v n hl hr hlb hrb ihl ihr =>
    refine ⟨fun hblack => by contradiction, fun _ => ?_⟩
    rw [insertRecursive]
    cases cmp v x with
    | eq => exact .node hl hr (.inl hlb)
    | gt =>
      dsimp only [setChild]
      rw [show node .red _ v r = join .red v .left _ r from rfl,
        insertBalance_red (ihl.1 hlb) hrb]
      exact RedRed.join (ihl.1 hlb) hr hrb .left
    | lt =>
      dsimp only [setChild]
      rw [show node .red l v _ = join .red v .right _ l from rfl,
        insertBalance_red (ihr.1 hrb) hlb]
      exact RedRed.join (ihr.1 hrb) hl hlb .right
  | @black l r v n hl hr ihl ihr =>
    refine ⟨fun _ => ?_, fun hred => by contradiction⟩
    have hside : ∀ {s : Tree α}, (s.isRed = false → Balanced (insertRecursive cmp x s).1 n) ∧
        (s.isRed = true → RedRed (insertRecursive cmp x s).1 n) →
        Balanced (insertRecursive cmp x s).1 n ∨ RedRed (insertRecursive cmp x s).1 n := by
      intro s hs
      cases hred : s.isRed with
      | false => exact .inl (hs.1 hred)
      | true => exact .inr (hs.2 hred)
    rw [insertRecursive]
    cases cmp v x with
    | eq => exact .black hl hr
    | gt => exact insertBalance_black (hside ihl) hr .left
    | lt => exact insertBalance_black (hside ihr) hl .right

/-- The walk to the key of `newn` turns the root red on the way back: at the root the
sibling is red, and the child on the walk is red or turns red. -/
def flips (cmp : α → α → Ordering) (newn : α) : Tree α → Bool
  | nil => false
  | node _ l v r =>
    match cmp v newn with
    | .eq => false
    | .gt => r.isRed && (l.isRed || flips cmp newn l)
    | .lt => l.isRed && (r.isRed || flips cmp newn r)

lemma isRed_rotate (root : Tree α) (dir : Dir) : (root.rotate dir).isRed = false :=
  isRed_paint_black _

/-- A black node turns red below two red children only. -/
lemma isRed_insertBalance (v : α) (dir : Dir) (x y : Tree α) :
    ((join .black v dir x y).insertBalance dir).isRed = (x.isRed && y.isRed) := by
  unfold insertBalance
  rw [child_join, child_other_join, paint_join, paintChildren_join]
  cases x.isRed with
  | false => rw [if_neg Bool.false_ne_true, isRed_join, Bool.false_and]; rfl
  | true =>
    cases y.isRed with
    | true => rw [if_pos rfl, if_pos rfl, isRed_join]; rfl
    | false =>
      rw [if_pos rfl, if_neg Bool.false_ne_true, Bool.and_false]
      split
      · exact isRed_rotate _ _
      · split
        · exact isRed_rotate _ _
        · rw [isRed_join]
          rfl

/-- Whether the root is red after the walk to a key that is there. -/
lemma isRed_insertRecursive (h : Balanced t n)
    (hdup : (insertRecursive cmp x t).2 = true) :
    (insertRecursive cmp x t).1.isRed = (t.isRed || flips cmp x t) := by
  induction h with
  | nil => contradiction
  | @red l r v n hl hr hlb hrb ihl ihr =>
    exact ((insertRecursive_balanced cmp x (.red hl hr hlb hrb)).2 rfl).isRed
  | @black l r v n hl hr ihl ihr =>
    rw [insertRecursive] at hdup ⊢
    rw [flips]
    cases hcmp : cmp v x with
    | eq => rfl
    | gt =>
      rw [hcmp] at hdup
      have hred := isRed_insertBalance v .left (insertRecursive cmp x l).1 r
      rw [ihl hdup] at hred
      exact hred.trans (Bool.and_comm ..)
    | lt =>
      rw [hcmp] at hdup
      have hred := isRed_insertBalance v .right (insertRecursive cmp x r).1 l
      rw [ihr hdup] at hred
      exact hred.trans (Bool.and_comm ..)

@[simp] lemma toList_paint (c : Color) (t : Tree α) : (t.paint c).toList = t.toList := by
  cases t <;> rfl

lemma isNil_of_isRed (h : t.isRed = true) : t.isNil = false := by
  cases t with
  | nil => contradiction
  | node => rfl

lemma toList_paintChildren (c : Color) (t : Tree α) :
    (t.paintChildren c).toList = t.toList := by
  cases t with
  | nil => rfl
  | node => simp [paintChildren, setChild, child, toList]

/-- A rotation keeps the order. -/
lemma toList_rotate (h : (root.child dir.other).isNil = false) :
    (root.rotate dir).toList = root.toList := by
  cases root with
  | nil => contradiction
  | node c l v r =>
    cases dir with
    | left =>
      cases r with
      | nil => contradiction
      | node => simp [rotate, setChild, child, paint, toList, Dir.other]
    | right =>
      cases l with
      | nil => contradiction
      | node => simp [rotate, setChild, child, paint, toList, Dir.other]

lemma toList_doubleRotate (hchild : ((root.child dir.other).child dir).isNil = false) :
    (root.doubleRotate dir).toList = root.toList := by
  cases root with
  | nil => cases dir <;> contradiction
  | node c l v r =>
    cases dir with
    | left =>
      cases r with
      | nil => contradiction
      | node c' l' v' r' =>
        cases l' with
        | nil => contradiction
        | node => simp [doubleRotate, rotate, setChild, child, paint, toList, Dir.other]
    | right =>
      cases l with
      | nil => contradiction
      | node c' l' v' r' =>
        cases r' with
        | nil => contradiction
        | node => simp [doubleRotate, rotate, setChild, child, paint, toList, Dir.other]

lemma toList_insertBalance (root : Tree α) (dir : Dir) :
    (root.insertBalance dir).toList = root.toList := by
  unfold insertBalance
  split
  · next hred =>
      split
      · rw [toList_paintChildren, toList_paint]
      · split
        · apply toList_rotate
          rw [other_other]
          exact isNil_of_isRed hred
        · split
          · next hgrand =>
              apply toList_doubleRotate
              rw [other_other]
              exact isNil_of_isRed hgrand
          · rfl
  · rfl

open OrderedList

/-- An insertion adds the node unless its key is there. -/
theorem insertRecursive_toList [TransCmp cmp] (x : α) (h : Sorted cmp t.toList) :
    (insertRecursive cmp x t).1.toList = add cmp x t.toList ∧
      (insertRecursive cmp x t).2 = (find cmp x t.toList).isSome := by
  induction t with
  | nil => exact ⟨rfl, rfl⟩
  | node c l v r ihl ihr =>
    obtain ⟨hl, hr, -, -⟩ := sorted_middle.mp h
    rw [insertRecursive, toList]
    cases hcmp : cmp v x with
    | eq =>
      rw [add_of_eq h hcmp, find_of_eq h hcmp]
      exact ⟨rfl, rfl⟩
    | gt =>
      rw [add_of_gt h hcmp, find_of_gt h hcmp, toList_insertBalance, ← (ihl hl).1]
      exact ⟨rfl, (ihl hl).2⟩
    | lt =>
      rw [add_of_lt h hcmp, find_of_lt h hcmp, toList_insertBalance, ← (ihr hr).1]
      exact ⟨rfl, (ihr hr).2⟩

/-! ## Extraction -/

/-- Both children of a node are black. -/
lemma children_black (c : Color) (v : α) (dir : Dir) (x y : Tree α) :
    (!((join c v dir x y).child .left).isRed && !((join c v dir x y).child .right).isRed) =
      (!x.isRed && !y.isRed) := by
  cases dir with
  | left => rfl
  | right => exact Bool.and_comm ..

lemma isNil_join (c : Color) (v : α) (dir : Dir) (x y : Tree α) :
    (join c v dir x y).isNil = false := by
  cases dir <;> rfl

lemma setChild_other_join (c : Color) (v : α) (dir : Dir) (x y z : Tree α) :
    (join c v dir x y).setChild dir.other z = join c v dir x z := by
  cases dir <;> rfl

/-- The balancing of a node with a black sibling: near and far nephew are black. -/
lemma extractBalance_repaint (c : Color) (v w : α) {x a b : Tree α} (ha : a.isRed = false)
    (hb : b.isRed = false) :
    (join c v dir x (join .black w dir a b)).extractBalance dir =
      (join .black v dir x (join .red w dir a b), decide (c = .red)) := by
  unfold extractBalance
  simp only [child_other_join, isRed_join, isNil_join, children_black, ha, hb,
    setChild_other_join, paint_join, reduceCtorEq, decide_false, Bool.false_eq_true, if_false,
    Bool.not_false, Bool.and_self, if_true]

/-- The balancing of a node with a black sibling and a red far nephew. -/
lemma extractBalance_rotate (c : Color) (v w : α) {x a b : Tree α} (hb : b.isRed = true) :
    (join c v dir x (join .black w dir a b)).extractBalance dir =
      (join c w dir (join .black v dir x a) (b.paint .black), true) := by
  unfold extractBalance
  simp only [child_other_join, isRed_join, isNil_join, children_black, hb, Bool.and_false,
    rotate_join, reduceCtorEq, decide_false, Bool.false_eq_true, if_false, if_true, Bool.not_true,
    paint_join, paintChildren_join]
  cases c <;> rfl

/-- The balancing of a node with a black sibling and a red near nephew. -/
lemma extractBalance_double (c : Color) (u v w : α) {x d e b : Tree α} (hb : b.isRed = false) :
    (join c v dir x (join .black w dir (join .red u dir d e) b)).extractBalance dir =
      (join c u dir (join .black v dir x d) (join .black w dir e b), true) := by
  unfold extractBalance
  simp only [child_other_join, isRed_join, isNil_join, children_black, hb,
    doubleRotate_join, reduceCtorEq, decide_false, decide_true, Bool.false_eq_true, if_false,
    Bool.not_true, Bool.false_and, paint_join, paintChildren_join]
  cases c <;> rfl

/-- The last colour of a node counts. -/
lemma paint_paintChildren (c c' c'' : Color) (t : Tree α) :
    (((t.paint c).paintChildren c').paint c'') = (t.paint c'').paintChildren c' := by
  cases t <;> rfl

/-- The balancing of a node with a red sibling: the node goes down, and it is balanced there. -/
lemma extractBalance_down (v w : α) {x a b : Tree α} (ha : a.isNil = false)
    (hab : a.isRed = false) :
    (join .black v dir x (join .red w dir a b)).extractBalance dir =
      (join .black w dir ((join .red v dir x a).extractBalance dir).1 b, true) := by
  unfold extractBalance
  simp only [child_other_join, child_join, isRed_join, rotate_join, setChild_join, ha, hab,
    reduceCtorEq, decide_false, decide_true, Bool.false_eq_true, if_false, if_true]
  cases !(a.child .left).isRed && !(a.child .right).isRed with
  | true => simp only [if_true]
  | false => simp only [Bool.false_eq_true, if_false, paint_paintChildren]

/-- A node with a low child and a higher black sibling. -/
lemma extractBalance_black_sibling (c : Color) {m : Nat} {x y : Tree α} (hx : Balanced x m)
    (hy : Balanced y (m + 1)) (hyb : y.isRed = false) :
    ((join c v dir x y).extractBalance dir).1.toList = (join c v dir x y).toList ∧
      ((c = .red ∧ ((join c v dir x y).extractBalance dir).2 = true ∧
          Balanced ((join c v dir x y).extractBalance dir).1 (m + 1)) ∨
        (c = .black ∧ ((join c v dir x y).extractBalance dir).1.isRed = false ∧
          ((((join c v dir x y).extractBalance dir).2 = true ∧
              Balanced ((join c v dir x y).extractBalance dir).1 (m + 2)) ∨
            (((join c v dir x y).extractBalance dir).2 = false ∧
              Balanced ((join c v dir x y).extractBalance dir).1 (m + 1))))) := by
  obtain ⟨w, a, b, rfl, ha, hb⟩ := hy.of_black hyb dir
  cases hfar : b.isRed with
  | true =>
    have hxa : Balanced (join .black v dir x a) (m + 1) := hx.join_black ha dir
    rw [extractBalance_rotate c v w hfar]
    refine ⟨by cases dir <;> simp [join, toList], ?_⟩
    cases c with
    | red =>
      exact .inl ⟨rfl, rfl, hxa.join_red (hb.paint_black hfar) (isRed_join ..)
        (isRed_paint_black b) dir⟩
    | black =>
      exact .inr ⟨rfl, isRed_join .., .inl ⟨rfl, hxa.join_black (hb.paint_black hfar) dir⟩⟩
  | false =>
    cases hnear : a.isRed with
    | true =>
      obtain ⟨u, d, e, rfl, hd, he, hdb, heb⟩ := ha.of_red hnear dir
      have hxd : Balanced (join .black v dir x d) (m + 1) := hx.join_black hd dir
      have heb : Balanced (join .black w dir e b) (m + 1) := he.join_black hb dir
      rw [extractBalance_double c u v w hfar]
      refine ⟨by cases dir <;> simp [join, toList], ?_⟩
      cases c with
      | red =>
        exact .inl ⟨rfl, rfl, hxd.join_red heb (isRed_join ..) (isRed_join ..) dir⟩
      | black => exact .inr ⟨rfl, isRed_join .., .inl ⟨rfl, hxd.join_black heb dir⟩⟩
    | false =>
      have hab : Balanced (join .red w dir a b) m := ha.join_red hb hnear hfar dir
      rw [extractBalance_repaint c v w hnear hfar]
      refine ⟨by cases dir <;> simp [join, toList], ?_⟩
      cases c with
      | red => exact .inl ⟨rfl, rfl, hx.join_black hab dir⟩
      | black => exact .inr ⟨rfl, isRed_join .., .inr ⟨rfl, hx.join_black hab dir⟩⟩

/-- A black node with a low child and a higher sibling. -/
lemma extractBalance_black {m : Nat} {x y : Tree α} (hx : Balanced x m)
    (hy : Balanced y (m + 1)) :
    ((join .black v dir x y).extractBalance dir).1.toList = (join .black v dir x y).toList ∧
      ((join .black v dir x y).extractBalance dir).1.isRed = false ∧
      ((((join .black v dir x y).extractBalance dir).2 = true ∧
          Balanced ((join .black v dir x y).extractBalance dir).1 (m + 2)) ∨
        (((join .black v dir x y).extractBalance dir).2 = false ∧
          Balanced ((join .black v dir x y).extractBalance dir).1 (m + 1))) := by
  cases hred : y.isRed with
  | false =>
    obtain ⟨hlist, hcases⟩ := extractBalance_black_sibling .black hx hy hred
    rcases hcases with ⟨h, -⟩ | ⟨-, hcases⟩
    · contradiction
    · exact ⟨hlist, hcases⟩
  | true =>
    obtain ⟨w, a, b, rfl, ha, hb, hab, hbb⟩ := hy.of_red hred dir
    have hnil : a.isNil = false := by
      cases ha
      · contradiction
      · rfl
    obtain ⟨hlist, hcases⟩ := extractBalance_black_sibling .red hx ha hab
    rcases hcases with ⟨-, -, hp⟩ | ⟨h, -⟩
    · rw [extractBalance_down v w hnil hab]
      refine ⟨?_, isRed_join .., .inl ⟨rfl, hp.join_black hb dir⟩⟩
      cases dir with
      | left | right =>
        simp only [join, toList] at hlist ⊢
        rw [hlist]
        simp
    · contradiction

/-- What a recursion of the extraction leaves of the balance: the height is as before, or the
tree is lower by one and its root was black and still is. -/
def Extracted (t : Tree α) (n : Nat) (t' : Tree α) (done : Bool) : Prop :=
  (done = true ∧ Balanced t' n ∧ (t.isRed = false → t'.isRed = false)) ∨
    (done = false ∧ t.isRed = false ∧ t'.isRed = false ∧ ∃ m, n = m + 1 ∧ Balanced t' m)

/-- The last step of the recursion. -/
lemma rebalance_extracted (dir : Dir) (w : α) {c : Color} {x x' y : Tree α} {done : Bool}
    (retv : Option α) (h : Balanced (join c v dir x y) n)
    (hx : ∀ m, Balanced x m → Extracted x m x' done) :
    (rebalance (join c w dir x' y) dir done retv).1.toList = (join c w dir x' y).toList ∧
      (rebalance (join c w dir x' y) dir done retv).2.2 = retv ∧
      Extracted (join c v dir x y) n (rebalance (join c w dir x' y) dir done retv).1
        (rebalance (join c w dir x' y) dir done retv).2.1 := by
  cases c with
  | red =>
    obtain ⟨hbx, hby, hxb, hyb⟩ := balanced_join_red.mp h
    rcases hx n hbx with ⟨rfl, hx', hxb'⟩ | ⟨rfl, -, -, m, rfl, hx'⟩
    · exact ⟨rfl, rfl, .inl ⟨rfl, hx'.join_red hby (hxb' hxb) hyb dir,
        fun hred => by rw [isRed_join] at hred; contradiction⟩⟩
    · obtain ⟨hlist, hcases⟩ := extractBalance_black_sibling (v := w) .red hx' hby hyb
      rcases hcases with ⟨-, hdone, hbal⟩ | ⟨hc, -⟩
      · exact ⟨hlist, rfl, .inl ⟨hdone, hbal,
          fun hred => by rw [isRed_join] at hred; contradiction⟩⟩
      · contradiction
  | black =>
    obtain ⟨k, rfl, hbx, hby⟩ := balanced_join_black.mp h
    rcases hx k hbx with ⟨rfl, hx', -⟩ | ⟨rfl, -, -, m, rfl, hx'⟩
    · exact ⟨rfl, rfl, .inl ⟨rfl, hx'.join_black hby dir, fun _ => isRed_join ..⟩⟩
    · obtain ⟨hlist, hblack, hcases⟩ := extractBalance_black (v := w) hx' hby
      rcases hcases with ⟨hdone, hbal⟩ | ⟨hdone, hbal⟩
      · exact ⟨hlist, rfl, .inl ⟨hdone, hbal, fun _ => hblack⟩⟩
      · exact ⟨hlist, rfl, .inr ⟨hdone, isRed_join .., hblack, m + 1, rfl, hbal⟩⟩

/-- The last node of a subtree. -/
lemma toList_heir (v : α) (h : t.isNil = false) : ∃ l, t.toList = l ++ [heir v t] := by
  induction t generalizing v with
  | nil => contradiction
  | node c l w r ihl ihr =>
    cases r with
    | nil => exact ⟨l.toList, rfl⟩
    | node c' l' w' r' =>
      obtain ⟨l₀, hl₀⟩ := ihr w rfl
      refine ⟨l.toList ++ w :: l₀, ?_⟩
      rw [toList, heir, hl₀, List.append_assoc]
      rfl

lemma Balanced.sides {c : Color} (h : Balanced (node c l v r) n) :
    ∃ k, Balanced l k ∧ Balanced r k := by
  cases h with
  | red hl hr | black hl hr => exact ⟨_, hl, hr⟩

/-- The child that takes the place of a node with at most one child. -/
lemma Balanced.unlink {c : Color} (h : Balanced (node c l v r) n)
    (hnil : (l.isNil || r.isNil) = true) :
    (if l.isNil then r else l).toList = l.toList ++ r.toList ∧
      Balanced (if l.isNil then r else l) 0 ∧
      (c = .red → n = 0 ∧ (if l.isNil then r else l).isRed = false) ∧ (c = .black → n = 1) := by
  obtain ⟨k, hl, hr⟩ := h.sides
  cases l with
  | nil =>
    cases hl
    refine ⟨rfl, hr, fun hc => ?_, fun hc => ?_⟩
    · subst hc
      cases h with
      | red hl _ _ hrb =>
        cases hl
        exact ⟨rfl, hrb⟩
    · subst hc
      cases h with
      | black hl _ =>
        cases hl
        rfl
  | node c' l' v' r' =>
    cases r with
    | node => contradiction
    | nil =>
      cases hr
      refine ⟨(List.append_nil _).symm, hl, fun hc => ?_, fun hc => ?_⟩
      · subst hc
        cases h with
        | red _ hr hlb _ =>
          cases hr
          exact ⟨rfl, hlb⟩
      · subst hc
        cases h with
        | black _ hr =>
          cases hr
          rfl

/-- The recursion of an extraction removes the node with the key of the target. -/
lemma extractRecursive_spec [TransCmp cmp] (h : Balanced t n)
    (hsorted : Sorted cmp t.toList) (target : α) :
    (extractRecursive cmp t target).1.toList = remove cmp target t.toList ∧
      (extractRecursive cmp t target).2.2 = find cmp target t.toList ∧
      Extracted t n (extractRecursive cmp t target).1 (extractRecursive cmp t target).2.1 := by
  induction t generalizing n target with
  | nil => exact ⟨rfl, rfl, .inl ⟨rfl, h, id⟩⟩
  | node c l v r ihl ihr =>
    obtain ⟨hl, hr, hlv, -⟩ := sorted_middle.mp hsorted
    obtain ⟨k, hbl, hbr⟩ := h.sides
    rw [extractRecursive]
    cases hcmp : cmp v target with
    | gt =>
      obtain ⟨hlist, hretv, hbal⟩ := rebalance_extracted .left v
        (extractRecursive cmp l target).2.2 h fun m hm => (ihl hm hl target).2.2
      obtain ⟨hl', hretv', -⟩ := ihl hbl hl target
      rw [toList, remove_of_gt hsorted hcmp, find_of_gt hsorted hcmp, ← hl', ← hretv']
      exact ⟨hlist, hretv, hbal⟩
    | lt =>
      obtain ⟨hlist, hretv, hbal⟩ := rebalance_extracted .right v
        (extractRecursive cmp r target).2.2 h fun m hm => (ihr hm hr target).2.2
      obtain ⟨hr', hretv', -⟩ := ihr hbr hr target
      rw [toList, remove_of_lt hsorted hcmp, find_of_lt hsorted hcmp, ← hr', ← hretv']
      exact ⟨hlist, hretv, hbal⟩
    | eq =>
      rw [toList, remove_of_eq hsorted hcmp, find_of_eq hsorted hcmp]
      by_cases hnil : (l.isNil || r.isNil) = true
      · obtain ⟨hlist, hsave, hredc, hblackc⟩ := h.unlink hnil
        rw [if_pos hnil]
        cases c with
        | red =>
          obtain ⟨rfl, hblack⟩ := hredc rfl
          exact ⟨hlist, rfl, .inl ⟨rfl, hsave, fun _ => hblack⟩⟩
        | black =>
          obtain rfl := hblackc rfl
          rw [if_neg (by decide)]
          by_cases hred : (if l.isNil then r else l).isRed = true
          · rw [if_pos hred, toList_paint]
            exact ⟨hlist, rfl, .inl ⟨rfl, hsave.paint_black hred,
              fun _ => isRed_paint_black _⟩⟩
          · rw [if_neg hred]
            exact ⟨hlist, rfl, .inr ⟨rfl, rfl, by simpa using hred, 0, rfl, hsave⟩⟩
      · rw [if_neg hnil]
        have hlnil : l.isNil = false := by
          cases hl' : l.isNil with
          | true => exact absurd (by rw [hl', Bool.true_or]) hnil
          | false => rfl
        obtain ⟨l₀, hl₀⟩ := toList_heir v hlnil
        obtain ⟨hlist, hretv, hbal⟩ := rebalance_extracted .left (heir v l)
          (some v) h fun m hm => (ihl hm hl (heir v l)).2.2
        refine ⟨?_, hretv, hbal⟩
        have hheir : cmp (heir v l) (heir v l) = .eq := ReflCmp.compare_self
        have hl' := (ihl hbl hl (heir v l)).1
        rw [hl₀] at hl hl'
        rw [remove_of_eq hl hheir, List.append_nil] at hl'
        refine hlist.trans ?_
        rw [join, toList, hl', hl₀, List.append_assoc]
        rfl

/-! ## The invariants -/

/-- No red node has a red child. -/
def NoRedRed : Tree α → Prop
  | nil => True
  | node c l _ r =>
    (c = .red → l.isRed = false ∧ r.isRed = false) ∧ NoRedRed l ∧ NoRedRed r

/-- The number of black nodes on each path from the root down. -/
def blackPaths : Tree α → List Nat
  | nil => [0]
  | node c l _ r => (l.blackPaths ++ r.blackPaths).map fun n => if c = .black then n + 1 else n

/-- The invariants of a red-black tree. -/
structure RedBlack (cmp : α → α → Ordering) (t : Tree α) : Prop where
  sorted : Sorted cmp t.toList
  root_black : t.isRed = false
  noRedRed : t.NoRedRed
  paths : ∀ a ∈ t.blackPaths, ∀ b ∈ t.blackPaths, a = b

lemma blackPaths_ne_nil (t : Tree α) : ∃ a, a ∈ t.blackPaths := by
  induction t with
  | nil => exact ⟨0, List.mem_singleton_self 0⟩
  | node c l v r ihl ihr =>
    obtain ⟨a, ha⟩ := ihl
    exact ⟨_, List.mem_map_of_mem (List.mem_append_left _ ha)⟩

/-- The balance in terms of colours and paths. -/
lemma balanced_iff : Balanced t n ↔ t.NoRedRed ∧ ∀ a ∈ t.blackPaths, a = n := by
  constructor
  · intro h
    induction h with
    | nil => exact ⟨trivial, fun a ha => List.mem_singleton.mp ha⟩
    | red hl hr hlb hrb ihl ihr =>
      refine ⟨⟨fun _ => ⟨hlb, hrb⟩, ihl.1, ihr.1⟩, fun a ha => ?_⟩
      obtain ⟨b, hb, rfl⟩ := List.mem_map.mp ha
      exact (List.mem_append.mp hb).elim (ihl.2 b) (ihr.2 b)
    | black hl hr ihl ihr =>
      refine ⟨⟨fun hc => by contradiction, ihl.1, ihr.1⟩, fun a ha => ?_⟩
      obtain ⟨b, hb, rfl⟩ := List.mem_map.mp ha
      exact congrArg (· + 1) ((List.mem_append.mp hb).elim (ihl.2 b) (ihr.2 b))
  · intro h
    induction t generalizing n with
    | nil =>
      obtain rfl := h.2 0 (List.mem_singleton_self 0)
      exact .nil
    | node c l v r ihl ihr =>
      obtain ⟨⟨hred, hl, hr⟩, hpaths⟩ := h
      cases c with
      | red =>
        have hside : ∀ a ∈ l.blackPaths ++ r.blackPaths, a = n :=
          fun a ha => hpaths a (List.mem_map.mpr ⟨a, ha, rfl⟩)
        exact .red (ihl ⟨hl, fun a ha => hside a (List.mem_append_left _ ha)⟩)
          (ihr ⟨hr, fun a ha => hside a (List.mem_append_right _ ha)⟩) (hred rfl).1 (hred rfl).2
      | black =>
        have hside : ∀ a ∈ l.blackPaths ++ r.blackPaths, a + 1 = n :=
          fun a ha => hpaths (a + 1) (List.mem_map.mpr ⟨a, ha, rfl⟩)
        obtain ⟨k, hk⟩ := blackPaths_ne_nil l
        obtain rfl := hside k (List.mem_append_left _ hk)
        exact .black
          (ihl ⟨hl, fun a ha => Nat.succ.inj (hside a (List.mem_append_left _ ha))⟩)
          (ihr ⟨hr, fun a ha => Nat.succ.inj (hside a (List.mem_append_right _ ha))⟩)

lemma redBlack_iff : RedBlack cmp t ↔
    Sorted cmp t.toList ∧ t.isRed = false ∧ ∃ n, Balanced t n := by
  constructor
  · intro h
    obtain ⟨k, hk⟩ := blackPaths_ne_nil t
    exact ⟨h.sorted, h.root_black, k,
      balanced_iff.mpr ⟨h.noRedRed, fun a ha => h.paths a ha k hk⟩⟩
  · rintro ⟨hsorted, hroot, n, hbal⟩
    obtain ⟨hred, hpaths⟩ := balanced_iff.mp hbal
    exact ⟨hsorted, hroot, hred, fun a ha b hb => (hpaths a ha).trans (hpaths b hb).symm⟩

end Tree

/-! ## Runs of calls -/

open OrderedList

/-- A call on a tree. -/
inductive TreeOp (α : Type) where
  | insert (newn : α)
  | extract (target : α)

namespace Tree

variable (cmp : α → α → Ordering)

/-- A call and the node it returns. -/
def exec (t : Tree α) : TreeOp α → Tree α × Option α
  | .insert newn => t.insert cmp newn
  | .extract target => t.extract cmp target

/-- The tree after a list of calls. -/
def run (t : Tree α) (ops : List (TreeOp α)) : Tree α := ops.foldl (fun t op => (t.exec cmp op).1) t

/-- What the call does to the ordered set of the nodes. -/
def setExec (l : List α) : TreeOp α → List α × Option α
  | .insert newn => (add cmp newn l, if (find cmp newn l).isSome then none else some newn)
  | .extract target => (remove cmp target l, find cmp target l)

/-- The set after a list of calls. -/
def setRun (l : List α) (ops : List (TreeOp α)) : List α :=
  ops.foldl (fun l op => (setExec cmp l op).1) l

/-- The condition on a call: a duplicate does not turn the root red. -/
def Keeps (t : Tree α) : TreeOp α → Prop
  | .insert newn => (∃ a ∈ t.toList, cmp a newn = .eq) → t.flips cmp newn = false
  | .extract _ => True

/-- Every call of the list meets the condition when it is made. -/
def Meets (t : Tree α) : List (TreeOp α) → Prop
  | [] => True
  | op :: ops => t.Keeps cmp op ∧ (t.exec cmp op).1.Meets ops

variable {cmp} {t : Tree α}

/-- The insertion of a node. -/
lemma RedBlack.insert [TransCmp cmp] (h : RedBlack cmp t) (x : α) :
    (t.insert cmp x).1.toList = add cmp x t.toList ∧
      (t.insert cmp x).2 = (if (find cmp x t.toList).isSome then none else some x) ∧
      (RedBlack cmp (t.insert cmp x).1 ↔ t.Keeps cmp (.insert x)) := by
  obtain ⟨hsorted, hroot, n, hbal⟩ := redBlack_iff.mp h
  have hkey : (∃ a ∈ t.toList, cmp a x = .eq) ↔ (find cmp x t.toList).isSome = true := by
    rw [find, List.find?_isSome]
    simp
  rw [Keeps, hkey]
  cases t with
  | nil =>
    refine ⟨rfl, rfl, iff_of_true ?_ (fun hdup => by contradiction)⟩
    exact redBlack_iff.mpr ⟨List.pairwise_singleton .., rfl, 1, .black .nil .nil⟩
  | node c l v r =>
    obtain ⟨hlist, hdup⟩ := insertRecursive_toList x hsorted
    have hrec := (insertRecursive_balanced cmp x hbal).1 hroot
    have hsorted' := sorted_add (x := x) hsorted
    rw [← hlist] at hsorted'
    rw [insert]
    dsimp only
    rw [← hdup]
    cases hkeyed : (insertRecursive cmp x (node c l v r)).2 with
    | true =>
      refine ⟨hlist, rfl, ?_⟩
      have hred := isRed_insertRecursive hbal hkeyed
      rw [hroot, Bool.false_or] at hred
      rw [if_pos rfl, redBlack_iff, ← hred]
      constructor
      · exact fun hbalanced _ => hbalanced.2.1
      · exact fun hblack => ⟨hsorted', hblack rfl, n, hrec⟩
    | false =>
      refine ⟨(toList_paint ..).trans hlist, rfl, iff_of_true ?_ (fun hdup => by contradiction)⟩
      rw [if_neg Bool.false_ne_true]
      refine redBlack_iff.mpr ⟨?_, isRed_paint_black _, hrec.paint⟩
      rw [toList_paint]
      exact hsorted'

/-- The extraction of a node. -/
lemma RedBlack.extract [TransCmp cmp] (h : RedBlack cmp t) (target : α) :
    (t.extract cmp target).1.toList = remove cmp target t.toList ∧
      (t.extract cmp target).2 = find cmp target t.toList ∧
      RedBlack cmp (t.extract cmp target).1 := by
  obtain ⟨hsorted, hroot, n, hbal⟩ := redBlack_iff.mp h
  cases t with
  | nil => exact ⟨rfl, rfl, h⟩
  | node c l v r =>
    obtain ⟨hlist, hretv, hext⟩ := extractRecursive_spec hbal hsorted target
    rw [extract]
    refine ⟨(toList_paint ..).trans hlist, hretv, redBlack_iff.mpr ⟨?_, isRed_paint_black _, ?_⟩⟩
    · rw [toList_paint, hlist]
      exact hsorted.filter _
    · rcases hext with ⟨-, hext, -⟩ | ⟨-, -, -, m, -, hext⟩
      · exact hext.paint
      · exact hext.paint

/-- One call. -/
lemma RedBlack.exec [TransCmp cmp] (h : RedBlack cmp t) (op : TreeOp α) :
    (t.exec cmp op).1.toList = (setExec cmp t.toList op).1 ∧
      (t.exec cmp op).2 = (setExec cmp t.toList op).2 ∧
      (RedBlack cmp (t.exec cmp op).1 ↔ t.Keeps cmp op) := by
  cases op with
  | insert newn => exact h.insert newn
  | extract target =>
    obtain ⟨hlist, hretv, hbal⟩ := h.extract target
    exact ⟨hlist, hretv, iff_of_true hbal trivial⟩

/-- The calls of a run. -/
lemma RedBlack.run [TransCmp cmp] (ops : List (TreeOp α)) : ∀ {t : Tree α},
    RedBlack cmp t → t.Meets cmp ops →
    RedBlack cmp (t.run cmp ops) ∧ (t.run cmp ops).toList = setRun cmp t.toList ops := by
  induction ops with
  | nil => exact fun h _ => ⟨h, rfl⟩
  | cons op ops ih =>
    intro t h hmeets
    obtain ⟨hlist, -, hkeeps⟩ := h.exec op
    have hrest := ih (hkeeps.mpr hmeets.1) hmeets.2
    rw [hlist] at hrest
    exact hrest

end Tree

/-- After every run from the empty tree in which no duplicate turns the root red the tree has
the invariants and the nodes of the ordered set; a further call does what it does to the set,
and it keeps the invariants exactly when it is not such a duplicate. -/
theorem red_black_of_run {cmp : α → α → Ordering} [TransCmp cmp] {ops : List (TreeOp α)}
    {t : Tree α} (hrun : Tree.nil.run cmp ops = t) (hmeets : Tree.nil.Meets cmp ops) :
    t.RedBlack cmp ∧ t.toList = Tree.setRun cmp [] ops ∧
      ∀ op, (t.exec cmp op).1.toList = (Tree.setExec cmp t.toList op).1 ∧
        (t.exec cmp op).2 = (Tree.setExec cmp t.toList op).2 ∧
        ((t.exec cmp op).1.RedBlack cmp ↔ t.Keeps cmp op) := by
  subst hrun
  have hnil : (Tree.nil : Tree α).RedBlack cmp :=
    Tree.redBlack_iff.mpr ⟨List.Pairwise.nil, rfl, 0, .nil⟩
  obtain ⟨h, hlist⟩ := hnil.run ops hmeets
  exact ⟨h, hlist, h.exec⟩

/-- A node goes, and a duplicate of another one comes. -/
theorem red_black_of_run_duplicate :
    (Tree.nil.run compare [.insert 4, .insert 2, .insert 6, .insert 2, .extract 4]).RedBlack
      (compare : Nat → Nat → Ordering) := by
  have hmeets : Tree.nil.Meets (compare : Nat → Nat → Ordering)
      [.insert 4, .insert 2, .insert 6, .insert 2, .extract 4] := by
    refine ⟨fun _ => ?_, fun _ => ?_, fun _ => ?_, fun _ => ?_, trivial, trivial⟩ <;> decide
  exact (red_black_of_run rfl hmeets).1

/-- Three nodes in ascending order, and a duplicate of the first one: the root is red. -/
theorem duplicate_reddens_root :
    Tree.nil.run (compare : Nat → Nat → Ordering) [.insert 1, .insert 2, .insert 3, .insert 1] =
        .node .red (.node .black .nil 1 .nil) 2 (.node .black .nil 3 .nil) ∧
      ¬(Tree.nil.run (compare : Nat → Nat → Ordering)
        [.insert 1, .insert 2, .insert 3, .insert 1]).RedBlack compare := by
  refine ⟨by decide, fun h => ?_⟩
  have hroot := h.root_black
  contradiction

end DiegOS.Support
