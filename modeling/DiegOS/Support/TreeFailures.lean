import DiegOS.Support.RootMarks

/-!
# Failed calls on the red-black tree

An insertion of a key that is there and an extraction of one that is not go down to the end of
their walk and come back through the balancing.  The extraction is done then; the insertion still
looks at the colours.

Main results:

- Theorem `extract_absent`: an extraction of an absent key changes nothing.
- Theorem `insert_duplicate_iff`: an insertion of a duplicate changes nothing unless the walk
  passes a node with two red children.
- Theorem `failed_calls_iff`: both together.
-/

namespace DiegOS.Support

open Lib.OrderedList Std DiegOS.Support.Tree

namespace FlagTree

variable {α : Type} {cmp : α → α → Ordering} {c : Color} {v newn : RbNode α} {dir : Dir}
  {t x y : FlagTree α} {n : Nat}

/-- The invariants of a red-black tree with the mark of its root. -/
structure Valid (cmp : α → α → Ordering) (t : FlagTree α) : Prop where
  redBlack : RedBlack cmp (t.map RbNode.data)
  marked : RootOnly t

/-- The walk to the key passes a node with two red children. -/
def passesTwoReds (cmp : α → α → Ordering) (x : α) : FlagTree α → Bool
  | nil => false
  | node _ l v r =>
    match cmp v.data x with
    | .eq => false
    | .gt => (l.isRed && r.isRed) || passesTwoReds cmp x l
    | .lt => (l.isRed && r.isRed) || passesTwoReds cmp x r

lemma passesTwoReds_join {k : α} (c : Color) (x y : FlagTree α)
    (hcmp : cmp v.data k = side dir.other) :
    passesTwoReds cmp k (join c v dir x y) = ((x.isRed && y.isRed) || passesTwoReds cmp k x) := by
  cases dir with
  | left => rw [join, passesTwoReds, hcmp]; rfl
  | right => rw [join, passesTwoReds, hcmp, Bool.and_comm]; rfl

lemma balanced_map {α β : Type} (f : α → β) {t : Tree α} {n : Nat} :
    Balanced (t.map f) n ↔ Balanced t n := by
  induction t generalizing n with
  | nil =>
    constructor
    · intro h
      cases h
      exact .nil
    · intro h
      cases h
      exact .nil
  | node c l v r ihl ihr =>
    rw [Tree.map]
    constructor
    · intro h
      cases h with
      | red hl hr hlb hrb =>
        rw [isRed_map] at hlb hrb
        exact .red (ihl.mp hl) (ihr.mp hr) hlb hrb
      | black hl hr => exact .black (ihl.mp hl) (ihr.mp hr)
    · intro h
      cases h with
      | red hl hr hlb hrb =>
        exact .red (ihl.mpr hl) (ihr.mpr hr) (by rw [isRed_map, hlb]) (by rw [isRed_map, hrb])
      | black hl hr => exact .black (ihl.mpr hl) (ihr.mpr hr)

lemma Balanced.of_join (h : Balanced (join c v dir x y) n) :
    ∃ k, Balanced x k ∧ Balanced y k := by
  cases dir with
  | left => exact Tree.Balanced.sides h
  | right =>
    rcases Tree.Balanced.sides h with ⟨k, hy, hx⟩
    exact ⟨k, hx, hy⟩

/-! ## The walk to a duplicate -/

/-- A balanced tree without two red children at the root is left alone. -/
lemma insertBalance_balanced (hx : Balanced x n) (hno : (x.isRed && y.isRed) = false) :
    insertBalance (join c v dir x y) dir = join c v dir x y := by
  have hbalancing := insertBalance_balancing c v dir x y
  generalize insertBalance (join c v dir x y) dir = t at hbalancing ⊢
  cases hbalancing with
  | keep => rfl
  | recolour hxred hyred =>
    rw [hxred, hyred] at hno
    contradiction
  | single hjoin ha =>
    rw [hjoin, balanced_join_red, ha] at hx
    exact absurd hx.2.2.1 (by simp)
  | double hjoin ha hyred =>
    rw [hjoin, balanced_join_red, isRed_join] at hx
    exact absurd hx.2.2.2 (by simp)

/-- Nothing changes on a walk that passes no node with two red children. -/
lemma insertRecursive_unchanged (h : Balanced t n)
    (hdup : (insertRecursive cmp newn t).2 = true)
    (hno : passesTwoReds cmp newn.data t = false) : (insertRecursive cmp newn t).1 = t := by
  induction t using descent_induction (fun v : RbNode α => cmp v.data newn.data) generalizing n with
  | hnil => contradiction
  | hfound c l v r hcmp => rw [insertRecursive_of_eq hcmp]
  | hstep c v dir x y hcmp ih =>
    rw [insertRecursive_join c y hcmp] at hdup ⊢
    rw [passesTwoReds_join c x y hcmp, Bool.or_eq_false_iff] at hno
    rcases Balanced.of_join h with ⟨k, hx, -⟩
    rw [ih hx hdup hno.2]
    exact insertBalance_balanced hx hno.1

/-- The number of red nodes. -/
def reds : FlagTree α → Nat
  | nil => 0
  | node c l _ r => reds l + (if c = .red then 1 else 0) + reds r

lemma reds_join (c : Color) (v : RbNode α) (dir : Dir) (x y : FlagTree α) :
    reds (join c v dir x y) = reds x + (if c = .red then 1 else 0) + reds y := by
  cases dir with
  | left => rfl
  | right =>
    rw [join, reds]
    omega

lemma reds_paint_black (h : t.isRed = true) : reds (t.paint .black) + 1 = reds t := by
  rcases eq_join_of_isRed h .left with ⟨w, a, b, rfl⟩
  rw [paint_join, reds_join, reds_join, if_pos rfl, if_neg (by simp)]
  omega

/-- The balancing of an insertion makes no further node red, and two red children of one node
become black. -/
lemma reds_insertBalance (c : Color) (v : RbNode α) (dir : Dir) (x y : FlagTree α) :
    reds (insertBalance (join c v dir x y) dir) ≤ reds (join c v dir x y) ∧
      (x.isRed = true → y.isRed = true →
        reds (insertBalance (join c v dir x y) dir) < reds (join c v dir x y)) := by
  have hbalancing := insertBalance_balancing c v dir x y
  generalize insertBalance (join c v dir x y) dir = t at hbalancing ⊢
  cases hbalancing with
  | keep hkeep =>
    refine ⟨Nat.le_refl _, fun hxred hyred => ?_⟩
    rw [(hkeep hxred).1] at hyred
    contradiction
  | recolour hxred hyred =>
    have hx := reds_paint_black hxred
    have hy := reds_paint_black hyred
    rw [reds_join, reds_join, if_pos rfl]
    omega
  | @single w a b hjoin ha hyred | @double w u a d e hjoin ha hyred =>
    subst hjoin
    simp only [reds_join, hyred, reduceCtorEq, if_true, if_false]
    refine ⟨?_, fun _ h => by contradiction⟩
    omega

/-- There are fewer red nodes after a walk that passes a node with two red children. -/
lemma reds_lt (h : Balanced t n) (hdup : (insertRecursive cmp newn t).2 = true)
    (hpass : passesTwoReds cmp newn.data t = true) :
    reds (insertRecursive cmp newn t).1 < reds t := by
  induction t using descent_induction (fun v : RbNode α => cmp v.data newn.data) generalizing n with
  | hnil => contradiction
  | hfound c l v r hcmp =>
    rw [passesTwoReds, hcmp] at hpass
    contradiction
  | hstep c v dir x y hcmp ih =>
    rw [insertRecursive_join c y hcmp] at hdup ⊢
    rw [passesTwoReds_join c x y hcmp, Bool.or_eq_true, Bool.and_eq_true] at hpass
    rcases Balanced.of_join h with ⟨k, hx, -⟩
    cases hbelow : passesTwoReds cmp newn.data x with
    | true =>
      -- the children below have changed already
      have hlt := ih hx hdup hbelow
      apply Nat.lt_of_le_of_lt (reds_insertBalance ..).1
      rw [reds_join, reds_join]
      omega
    | false =>
      rw [hbelow] at hpass
      rcases hpass.resolve_right Bool.false_ne_true with ⟨hxred, hyred⟩
      rw [insertRecursive_unchanged hx hdup hbelow]
      exact (reds_insertBalance ..).2 hxred hyred

/-- An insertion of a duplicate changes the tree exactly if its walk passes a node with two red
children. -/
theorem insert_duplicate_iff (h : Balanced t n)
    (hfound : (search cmp newn.data (t.map RbNode.data)).isSome = true) :
    (insert cmp t newn).2 = none ∧
      ((insert cmp t newn).1 = t ↔ passesTwoReds cmp newn.data t = false) := by
  rw [← insertRecursive_dup] at hfound
  cases t with
  | nil => contradiction
  | node c l v r =>
    rw [insert]
    dsimp only
    rw [if_pos hfound]
    refine ⟨rfl, fun heq => ?_, insertRecursive_unchanged h hfound⟩
    cases hpass : passesTwoReds cmp newn.data (node c l v r) with
    | false => rfl
    | true =>
      have hlt := reds_lt h hfound hpass
      rw [heq] at hlt
      exact absurd hlt (Nat.lt_irrefl _)

/-! ## The walk to an absent key -/

lemma extractRecursive_absent {target : α}
    (habsent : search cmp target (t.map RbNode.data) = none) :
    extractRecursive cmp t target = (t, true, none) := by
  induction t with
  | nil => rfl
  | node c l v r ihl ihr =>
    rw [Tree.map, search] at habsent
    rw [extractRecursive]
    cases hcmp : cmp v.data target with
    | eq =>
      rw [hcmp] at habsent
      contradiction
    | gt =>
      rw [hcmp] at habsent
      rw [ihl habsent]
      rfl
    | lt =>
      rw [hcmp] at habsent
      rw [ihr habsent]
      rfl

/-- An extraction of an absent key changes nothing. -/
theorem extract_absent {target : α} (hblack : t.isRed = false) (hmarked : RootOnly t)
    (habsent : search cmp target (t.map RbNode.data) = none) :
    extract cmp t target = (t, none) := by
  cases t with
  | nil => rfl
  | node c l v r =>
    rw [extract, extractRecursive_absent habsent]
    rcases v with ⟨v, root⟩
    cases c with
    | red => contradiction
    | black =>
      rcases hmarked.1 with rfl
      rfl

end FlagTree

open FlagTree

variable {α : Type} {cmp : α → α → Ordering} {t : FlagTree α}

/-- In every valid tree the insertion of a key that is there returns no node, and it changes
nothing exactly if no node on the way to the key has two red children; the extraction of a key
that is not there changes nothing. -/
theorem failed_calls_iff [TransCmp cmp] (h : Valid cmp t) :
    (∀ newn : RbNode α, (∃ a ∈ t.toList, cmp a.data newn.data = .eq) →
      (FlagTree.insert cmp t newn).2 = none ∧
        ((FlagTree.insert cmp t newn).1 = t ↔ passesTwoReds cmp newn.data t = false)) ∧
      ∀ target : α, (∀ a ∈ t.toList, cmp a.data target ≠ .eq) →
        FlagTree.extract cmp t target = (t, none) := by
  rcases redBlack_iff.mp h.redBlack with ⟨hsorted, hblack, n, hbalanced⟩
  constructor
  · rintro newn ⟨a, ha, hcmp⟩
    apply insert_duplicate_iff (balanced_map _ |>.mp hbalanced)
    rw [search_eq_find hsorted, find, List.find?_isSome, toList_map]
    exact ⟨a.data, List.mem_map_of_mem ha, by simp [hcmp]⟩
  · intro target habsent
    apply extract_absent _ h.marked
    · rw [search_eq_find hsorted, find, List.find?_eq_none, toList_map]
      intro a ha
      rcases List.mem_map.mp ha with ⟨b, hb, rfl⟩
      simp [habsent b hb]
    · rw [← isRed_map RbNode.data, hblack]

/-- Two red children below the root. -/
def redPair : FlagTree Nat :=
  .node .black (.node .red .nil ⟨1, false⟩ .nil) ⟨2, true⟩ (.node .red .nil ⟨3, false⟩ .nil)

lemma redPair_valid : Valid compare redPair := by
  constructor
  · apply redBlack_iff.mpr
    refine ⟨?_, rfl, 1, .black (.red .nil .nil rfl rfl) (.red .nil .nil rfl rfl)⟩
    unfold Sorted
    decide
  · exact ⟨rfl, rfl, rfl⟩

/-- The key of the root comes again, and a key that is not there is extracted. -/
theorem failed_calls_pair : (FlagTree.insert compare redPair ⟨2, false⟩).1 = redPair ∧
    FlagTree.extract compare redPair 4 = (redPair, none) := by
  rcases failed_calls_iff redPair_valid with ⟨hinsert, hextract⟩
  constructor
  · exact (hinsert ⟨2, false⟩ (by decide)).2.mpr (by decide)
  · exact hextract 4 (by decide)

/-- The key of the left child comes again: the colours of all nodes change. -/
theorem duplicate_recolours : Valid compare redPair ∧
    FlagTree.insert compare redPair ⟨1, false⟩ = (.node .red (.node .black .nil ⟨1, false⟩ .nil)
      ⟨2, true⟩ (.node .black .nil ⟨3, false⟩ .nil), none) ∧
    (FlagTree.insert compare redPair ⟨1, false⟩).1 ≠ redPair :=
  ⟨redPair_valid, by decide, by decide⟩

end DiegOS.Support
