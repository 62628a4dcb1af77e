import DiegOS.Support.RedBlackTree
import Mathlib.Data.List.Flatten

/-!
# The layers of a tree

`rbtree_enumerate_layered` and `rbtree_count`.  The output array is also the queue; a slot
that has not been written is `none`, and reading it, or writing behind the array, fails.  A
node is named by the path to it; the numbers of nodes fit in 32 bits.

Main results:

- Theorem `layer_succ`: a layer are the children of the one above, from left to right.
- Theorem `layerLoop_eq`: the inner loop stores the children of a layer behind it.
- Theorem `enumerateLayered_spec`: the nodes of a tree in the array.
-/

namespace DiegOS.Support

namespace Tree

variable {α : Type}

/-! ## The code -/

/-- `rbtree_count` -/
def count : Tree α → Nat
  | nil => 0
  | node _ l _ r => 1 + l.count + r.count

/-- One of the two tests in the inner loop of `rbtree_enumerate_layered`: a child is stored
behind the queue. -/
def storeChild (root : Tree α) (list : List (Option (Tree α))) (c : Nat) :
    Option (List (Option (Tree α)) × Nat) :=
  if root.isNil then some (list, c)
  else if c < list.length then some (list.set c (some root), c + 1)
  else none

/-- The inner loop of `rbtree_enumerate_layered`: the array and `c`. -/
def layerLoop : Nat → List (Option (Tree α)) → Nat → Nat → Nat →
    Option (List (Option (Tree α)) × Nat)
  | 0, _, _, _, _ => none
  | rounds + 1, list, r1, r2, c =>
    if r1 = r2 then some (list, c)
    else
      (list[r1]?.join).bind fun root =>
        (storeChild (root.child .left) list c).bind fun (list, c) =>
          (storeChild (root.child .right) list c).bind fun (list, c) =>
            layerLoop rounds list (r1 + 1) r2 c

/-- The outer loop of `rbtree_enumerate_layered`. -/
def layersLoop (fuel : Nat) :
    Nat → List (Option (Tree α)) → Nat → Nat → Option (List (Option (Tree α)))
  | 0, _, _, _ => none
  | rounds + 1, list, r1, c =>
    let r2 := c
    (layerLoop fuel list r1 r2 c).bind fun (list, c) =>
      if r2 ≠ c then layersLoop fuel rounds list r2 c else some list

/-- `rbtree_enumerate_layered` -/
def enumerateLayered (root : Tree α) (list : List (Option (Tree α))) (fuel : Nat) :
    Option (List (Option (Tree α))) :=
  if root.isNil then some list
  else if 0 < list.length then layersLoop fuel fuel (list.set 0 (some root)) 0 1
  else none

/-! ## Paths and layers -/

/-- The subtree at the end of a path. -/
def follow (t : Tree α) : List Dir → Tree α
  | [] => t
  | d :: p => (t.child d).follow p

/-- One path leads to the left of another one. -/
def LeftOf (p q : List Dir) : Prop := ∃ u v w, p = u ++ .left :: v ∧ q = u ++ .right :: w

/-- One path comes before another one: level by level, and from left to right. -/
def Before (p q : List Dir) : Prop :=
  p.length < q.length ∨ p.length = q.length ∧ LeftOf p q

/-- The paths to the nodes of a level, from left to right. -/
def layer : Tree α → Nat → List (List Dir)
  | nil, _ => []
  | node _ _ _ _, 0 => [[]]
  | node _ l _ r, k + 1 => (l.layer k).map (.left :: ·) ++ (r.layer k).map (.right :: ·)

/-- The paths to the nodes of the first levels. -/
def layers (t : Tree α) (k : Nat) : List (List Dir) := (List.range k).flatMap t.layer

/-- The paths to the children of a node. -/
def nexts (t : Tree α) (p : List Dir) : List (List Dir) :=
  ([.left, .right].filter fun d => !((t.follow p).child d).isNil).map fun d => p ++ [d]

/-- The number of levels. -/
def height : Tree α → Nat
  | nil => 0
  | node _ l _ r => 1 + max l.height r.height

section Layers

variable {t l r : Tree α} {c : Color} {x : α} {p q : List Dir} {k m : Nat}

lemma follow_nil_tree (p : List Dir) : (nil : Tree α).follow p = nil := by
  induction p with
  | nil => rfl
  | cons d p ih => exact ih

lemma follow_append (t : Tree α) (p q : List Dir) :
    t.follow (p ++ q) = (t.follow p).follow q := by
  induction p generalizing t with
  | nil => rfl
  | cons d p ih => exact ih (t.child d)

/-- A layer are the children of the one above, from left to right. -/
theorem layer_succ (t : Tree α) (k : Nat) : t.layer (k + 1) = (t.layer k).flatMap t.nexts := by
  induction k generalizing t with
  | zero =>
    cases t with
    | nil => rfl
    | node c l x r => cases l <;> cases r <;> rfl
  | succ k ih =>
    cases t with
    | nil => rfl
    | node c l x r =>
      have hnexts : ∀ d p, (node c l x r).nexts (d :: p) =
          (((node c l x r).child d).nexts p).map (d :: ·) := fun d p => by
        rw [nexts, nexts, List.map_map]
        rfl
      rw [layer, ih l, ih r, layer, List.flatMap_append, List.flatMap_map, List.flatMap_map,
        List.map_flatMap, List.map_flatMap]
      simp only [hnexts]
      rfl

lemma mem_layer : p ∈ t.layer k ↔ p.length = k ∧ (t.follow p).isNil = false := by
  induction t generalizing p k with
  | nil =>
    rw [follow_nil_tree]
    exact ⟨fun h => absurd h List.not_mem_nil, fun h => Bool.noConfusion h.2⟩
  | node c l x r ihl ihr =>
    cases k with
    | zero =>
      cases p with
      | nil => simp [layer, follow, isNil]
      | cons d p => simp [layer]
    | succ k =>
      cases p with
      | nil => simp [layer]
      | cons d p =>
        cases d with
        | left => simp [layer, follow, child, ihl]
        | right => simp [layer, follow, child, ihr]

lemma pairwise_layer (t : Tree α) (k : Nat) : (t.layer k).Pairwise LeftOf := by
  have hcons : ∀ d p q, LeftOf p q → LeftOf (d :: p) (d :: q) := fun d p q h => by
    obtain ⟨u, v, w, rfl, rfl⟩ := h
    exact ⟨d :: u, v, w, rfl, rfl⟩
  induction t generalizing k with
  | nil => exact .nil
  | node c l x r ihl ihr =>
    cases k with
    | zero => exact List.pairwise_singleton _ _
    | succ k =>
      rw [layer, List.pairwise_append, List.pairwise_map, List.pairwise_map]
      refine ⟨(ihl k).imp fun h => hcons _ _ _ h, (ihr k).imp fun h => hcons _ _ _ h, ?_⟩
      intro p hp q hq
      obtain ⟨p, -, rfl⟩ := List.mem_map.mp hp
      obtain ⟨q, -, rfl⟩ := List.mem_map.mp hq
      exact ⟨[], p, q, rfl, rfl⟩

/-- The first levels come in order. -/
lemma pairwise_layers (t : Tree α) (k : Nat) : (t.layers k).Pairwise Before := by
  rw [layers, List.pairwise_flatMap]
  refine ⟨fun i _ => ?_, List.pairwise_lt_range.imp fun h p hp q hq => ?_⟩
  · refine (pairwise_layer t i).imp_of_mem fun hp hq h => .inr ⟨?_, h⟩
    rw [(mem_layer.mp hp).1, (mem_layer.mp hq).1]
  · left
    rwa [(mem_layer.mp hp).1, (mem_layer.mp hq).1]

lemma layers_succ (t : Tree α) (k : Nat) : t.layers (k + 1) = t.layers k ++ t.layer k := by
  rw [layers, layers, List.range_succ, List.flatMap_append, List.flatMap_singleton]

lemma layer_height (h : t.height ≤ k) : t.layer k = [] := by
  induction t generalizing k with
  | nil => rfl
  | node c l x r ihl ihr =>
    rw [height] at h
    cases k with
    | zero => omega
    | succ k => rw [layer, ihl (by omega), ihr (by omega)]; rfl

lemma height_le_count (t : Tree α) : t.height ≤ t.count := by
  induction t with
  | nil => exact Nat.le_refl _
  | node c l x r ihl ihr =>
    rw [height, count]
    omega

/-- Behind an empty layer there is nothing. -/
lemma layers_eq_of_nil (h : t.layer k = []) (hk : k ≤ m) : t.layers m = t.layers k := by
  have hnil : ∀ d, t.layer (k + d) = [] := by
    intro d
    induction d with
    | zero => exact h
    | succ d ih => rw [← Nat.add_assoc, layer_succ, ih]; rfl
  obtain ⟨d, rfl⟩ := Nat.exists_eq_add_of_le hk
  clear hk
  induction d with
  | zero => rfl
  | succ d ih => rw [← Nat.add_assoc, layers_succ, hnil d, List.append_nil, ih]

lemma layers_nil (k : Nat) : (nil : Tree α).layers k = [] :=
  layers_eq_of_nil rfl (Nat.zero_le k)

lemma length_layers_node (k : Nat) :
    ((node c l x r).layers (k + 1)).length = 1 + (l.layers k).length + (r.layers k).length := by
  induction k with
  | zero => rfl
  | succ k ih =>
    rw [layers_succ, List.length_append, ih, layers_succ, layers_succ, layer,
      List.length_append, List.length_append, List.length_append, List.length_map,
      List.length_map]
    omega

lemma length_layers_le (t : Tree α) (k : Nat) : (t.layers k).length ≤ t.count := by
  induction t generalizing k with
  | nil => rw [layers_nil]; exact Nat.zero_le _
  | node c l x r ihl ihr =>
    cases k with
    | zero => exact Nat.zero_le _
    | succ k =>
      have hl := ihl k
      have hr := ihr k
      rw [length_layers_node, count]
      omega

/-- All layers together have as many nodes as the tree. -/
lemma length_layers (h : t.height ≤ k) : (t.layers k).length = t.count := by
  induction t generalizing k with
  | nil => rw [layers_nil]; rfl
  | node c l x r ihl ihr =>
    rw [height] at h
    obtain ⟨k, rfl⟩ : ∃ j, k = j + 1 := ⟨k - 1, by omega⟩
    rw [length_layers_node, count, ihl (by omega), ihr (by omega)]

/-- The paths to all nodes. -/
lemma mem_layers (h : t.height ≤ k) : p ∈ t.layers k ↔ (t.follow p).isNil = false := by
  rw [layers, List.mem_flatMap]
  constructor
  · rintro ⟨i, -, hp⟩
    exact (mem_layer.mp hp).2
  · intro hp
    refine ⟨p.length, List.mem_range.mpr (Nat.not_le.mp fun hlen => ?_), mem_layer.mpr ⟨rfl, hp⟩⟩
    have hmem : p ∈ t.layer p.length := mem_layer.mpr ⟨rfl, hp⟩
    rw [layer_height (Nat.le_trans h hlen)] at hmem
    exact absurd hmem List.not_mem_nil

end Layers

/-! ## The loops -/

section Loops

variable {t root : Tree α} {list slots rest : List (Option (Tree α))} {k n : Nat}
  {todo : List (List Dir)} {p : List Dir}

/-- The slots for the nodes at some paths. -/
def entries (t : Tree α) (paths : List (List Dir)) : List (Option (Tree α)) :=
  paths.map fun p => some (t.follow p)

lemma entries_append (t : Tree α) (ps qs : List (List Dir)) :
    t.entries (ps ++ qs) = t.entries ps ++ t.entries qs := List.map_append

lemma length_entries (t : Tree α) (ps : List (List Dir)) : (t.entries ps).length = ps.length :=
  List.length_map _

/-- A child is stored in the first slot behind the queue. -/
lemma storeChild_of_node (ps : List (List Dir)) {q : List Dir}
    (hnode : (t.follow q).isNil = false) (slot : Option (Tree α)) (rest : List (Option (Tree α))) :
    storeChild (t.follow q) (t.entries ps ++ slot :: rest) ps.length =
      some (t.entries (ps ++ [q]) ++ rest, (ps ++ [q]).length) := by
  have hroom : ps.length < (t.entries ps ++ slot :: rest).length := by
    rw [List.length_append, length_entries, List.length_cons]
    omega
  have hset : (t.entries ps ++ slot :: rest).set ps.length (some (t.follow q)) =
      t.entries ps ++ some (t.follow q) :: rest := by
    rw [List.set_append_right _ _ (Nat.le_of_eq (length_entries t ps)), length_entries,
      Nat.sub_self, List.set_cons_zero]
  rw [storeChild, if_neg (by rw [hnode]; decide), if_pos hroom, hset, entries_append,
    List.append_assoc, List.length_append]
  rfl

/-- Both children of a node are stored behind the queue. -/
lemma storeChildren_eq (ps : List (List Dir)) (hroom : (t.nexts p).length ≤ rest.length) :
    ∃ list c, storeChild ((t.follow p).child .left) (t.entries ps ++ rest) ps.length =
        some (list, c) ∧
      storeChild ((t.follow p).child .right) list c =
        some (t.entries (ps ++ t.nexts p) ++ rest.drop (t.nexts p).length,
          (ps ++ t.nexts p).length) := by
  have hfollow : ∀ d, (t.follow p).child d = t.follow (p ++ [d]) := fun d =>
    (follow_append t p [d]).symm
  have hskip : ∀ d list c, (t.follow (p ++ [d])).isNil = true →
      storeChild (t.follow (p ++ [d])) list c = some (list, c) := fun d list c h => if_pos h
  simp only [nexts, hfollow] at hroom ⊢
  cases hl : (t.follow (p ++ [.left])).isNil with
  | true =>
    refine ⟨_, _, hskip _ _ _ hl, ?_⟩
    cases hr : (t.follow (p ++ [.right])).isNil with
    | true => simp [hskip _ _ _ hr, hl, hr]
    | false =>
      cases rest with
      | nil => simp [hl, hr] at hroom
      | cons slot rest => simp [storeChild_of_node ps hr, hl, hr]
  | false =>
    cases rest with
    | nil => simp [hl] at hroom
    | cons slot rest =>
      refine ⟨_, _, storeChild_of_node ps hl slot rest, ?_⟩
      cases hr : (t.follow (p ++ [.right])).isNil with
      | true => simp [hskip _ _ _ hr, hl, hr]
      | false =>
        cases rest with
        | nil => simp [hl, hr] at hroom
        | cons slot' rest =>
          rw [storeChild_of_node _ hr]
          simp [hl, hr]

/-- The inner loop stores the children of a layer behind it. -/
theorem layerLoop_eq {rounds : Nat} (done queued : List (List Dir)) (hrounds : todo.length < rounds)
    (hroom : (todo.flatMap t.nexts).length ≤ rest.length) :
    layerLoop rounds (t.entries (done ++ (todo ++ queued)) ++ rest) done.length
        (done.length + todo.length) (done ++ (todo ++ queued)).length =
      some (t.entries (done ++ (todo ++ queued) ++ todo.flatMap t.nexts) ++
          rest.drop (todo.flatMap t.nexts).length,
        (done ++ (todo ++ queued) ++ todo.flatMap t.nexts).length) := by
  induction todo generalizing done queued rest rounds with
  | nil =>
    obtain ⟨rounds, rfl⟩ : ∃ j, rounds = j + 1 := ⟨rounds - 1, by omega⟩
    have hend : done.length = done.length + ([] : List (List Dir)).length := rfl
    rw [layerLoop, if_pos hend, List.flatMap_nil, List.append_nil]
    rfl
  | cons p todo ih =>
    rw [List.length_cons] at hrounds
    rw [List.flatMap_cons, List.length_append] at hroom
    obtain ⟨rounds, rfl⟩ : ∃ j, rounds = j + 1 := ⟨rounds - 1, by omega⟩
    have hread : (t.entries (done ++ (p :: todo ++ queued)) ++ rest)[done.length]?.join =
        some (t.follow p) := by
      rw [entries_append, List.append_assoc, List.getElem?_append_right
        (Nat.le_of_eq (length_entries t done)), length_entries, Nat.sub_self]
      rfl
    have hfits : (t.nexts p).length ≤ rest.length := by omega
    obtain ⟨list, c, hleft, hright⟩ :=
      storeChildren_eq (done ++ (p :: todo ++ queued)) hfits
    have hleftover : (todo.flatMap t.nexts).length ≤ (rest.drop (t.nexts p).length).length := by
      rw [List.length_drop]
      omega
    have hrest := ih (done ++ [p]) (queued ++ t.nexts p) (show todo.length < rounds by omega)
      hleftover
    have hsame : done ++ (p :: todo ++ queued) ++ t.nexts p =
        done ++ [p] ++ (todo ++ (queued ++ t.nexts p)) := by simp
    have hdone : (done ++ [p]).length = done.length + 1 := List.length_append
    have hnew : (t.nexts p ++ todo.flatMap t.nexts).length =
        (t.nexts p).length + (todo.flatMap t.nexts).length := List.length_append
    rw [hdone, Nat.add_assoc, Nat.add_comm 1] at hrest
    rw [layerLoop, if_neg (by rw [List.length_cons]; omega), hread, Option.bind_some, hleft,
      Option.bind_some]
    dsimp only
    rw [hright, Option.bind_some]
    rw [hsame, List.length_cons, hrest, List.flatMap_cons, ← List.append_assoc _ (t.nexts p),
      hsame, List.drop_drop, hnew]

/-- The outer loop stores the layers one after the other.  It ends with the first layer that has no
children. -/
lemma layersLoop_eq {fuel rounds : Nat} (hfuel : t.count < fuel)
    (hroom : t.count ≤ slots.length) (hk : t.layer k ≠ []) (hrounds : t.height ≤ k + rounds) :
    layersLoop fuel rounds
        (t.entries (t.layers (k + 1)) ++ slots.drop (t.layers (k + 1)).length)
        (t.layers k).length (t.layers (k + 1)).length =
      some (t.entries (t.layers t.height) ++ slots.drop t.count) := by
  induction rounds generalizing k with
  | zero => exact absurd (layer_height hrounds) hk
  | succ rounds ih =>
    have hle := length_layers_le t (k + 1 + 1)
    rw [layers_succ, List.length_append, layer_succ] at hle
    have hlayer := length_layers_le t (k + 1)
    rw [layers_succ, List.length_append] at hlayer
    have hfits : ((t.layer k).flatMap t.nexts).length ≤
        (slots.drop (t.layers (k + 1)).length).length := by
      rw [List.length_drop]
      omega
    have hinner := layerLoop_eq (t.layers k) [] (show (t.layer k).length < fuel by omega) hfits
    rw [List.append_nil, ← layers_succ, ← layer_succ, ← layers_succ, List.drop_drop,
      ← List.length_append, ← layers_succ, ← List.length_append, ← layers_succ] at hinner
    rw [layersLoop, hinner, Option.bind_some]
    dsimp only
    by_cases hnil : t.layer (k + 1) = []
    · have hall : t.layers t.height = t.layers (k + 1) := by
        rcases Nat.le_total (k + 1) t.height with hle | hle
        · exact layers_eq_of_nil hnil hle
        · exact (layers_eq_of_nil (layer_height (Nat.le_refl _)) hle).symm
      have hcount := length_layers (t := t) (Nat.le_refl _)
      have hlast : t.layers (k + 1 + 1) = t.layers (k + 1) := by
        rw [layers_succ, hnil, List.append_nil]
      rw [hlast, if_neg (by simp), hall, ← hcount, hall]
    · have hpos := List.length_pos_of_ne_nil hnil
      have hmore : (t.layers (k + 1)).length ≠ (t.layers (k + 1 + 1)).length := by
        rw [layers_succ t (k + 1), List.length_append]
        omega
      rw [if_pos hmore]
      exact ih hnil (by omega)

/-- The nodes of a tree in the array: every node once, level by level and from left to right; the
rest of the array is left alone. -/
theorem enumerateLayered_spec (hroot : root.isNil = false) (hroom : root.count ≤ slots.length) :
    ∃ paths : List (List Dir), paths.length = root.count ∧ paths.Pairwise Before ∧
      (∀ p, p ∈ paths ↔ (root.follow p).isNil = false) ∧
      ∀ fuel, root.count < fuel → enumerateLayered root slots fuel =
        some (root.entries paths ++ slots.drop root.count) := by
  refine ⟨root.layers root.height, length_layers (Nat.le_refl _), pairwise_layers _ _,
    fun p => mem_layers (Nat.le_refl _), fun fuel hfuel => ?_⟩
  have hfirst : root.layer 0 = [[]] := by
    cases root with
    | nil => exact Bool.noConfusion hroot
    | node c l x r => rfl
  have hone : root.layers 1 = [[]] := (layers_succ root 0).trans (by rw [hfirst]; rfl)
  have hpos := length_layers_le root 1
  have hheight := height_le_count root
  have hnode : root.layer 0 ≠ [] := by
    rw [hfirst]
    exact List.cons_ne_nil _ _
  have hrun := layersLoop_eq hfuel hroom hnode (show root.height ≤ 0 + fuel by omega)
  rw [hone, List.length_singleton] at hpos
  rw [hone] at hrun
  obtain ⟨slot, slots, rfl⟩ := List.exists_cons_of_length_pos (show 0 < slots.length by omega)
  rw [enumerateLayered, if_neg (by rw [hroot]; decide), 
    if_pos (show 0 < (slot :: slots).length from Nat.zero_lt_succ _)]
  exact hrun

end Loops

/-- A root with a right child that has two children. -/
def lopsided : Tree Nat :=
  node .black nil 1 (node .red (node .black nil 2 nil) 3 (node .black nil 4 nil))

theorem enumerateLayered_lopsided :
    ∃ paths : List (List Dir), paths.length = 4 ∧ paths.Pairwise Before ∧
      (∀ p, p ∈ paths ↔ (lopsided.follow p).isNil = false) ∧
      ∀ fuel, 4 < fuel → enumerateLayered lopsided [none, none, none, none, none] fuel =
        some (lopsided.entries paths ++ [none]) :=
  enumerateLayered_spec rfl
    (show lopsided.count ≤ [none, none, none, none, (none : Option (Tree Nat))].length by decide)

end Tree

end DiegOS.Support
