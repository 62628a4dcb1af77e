import DiegOS.Lib.Lists
import Mathlib.Data.List.Basic
import Mathlib.Order.Compare
import Mathlib.Tactic.Common

/-!
# Sets as ordered lists

A set of values with at most one for each key: a list that is strictly ordered by a comparison
function.  What an operation does to a list with a value in its middle is what it does to one
side of it.

Main results:

- Theorem `sorted_add`, `sorted_remove`: the operations keep the order.
- Theorem `add_of_gt`, `remove_of_gt`, `find_of_gt` and their mirror images.
-/

namespace DiegOS.Lib.OrderedList

open Std

variable {α : Type} (cmp : α → α → Ordering)

/-- The values are in strict order. -/
def Sorted (l : List α) : Prop := l.Pairwise fun a b => cmp a b = .lt

/-- The value with the key of `x`. -/
def find (x : α) (l : List α) : Option α := l.find? fun a => cmp a x = .eq

/-- Add a value unless its key is there. -/
def add (x : α) (l : List α) : List α :=
  if (find cmp x l).isSome then l
  else (l.filter fun a => cmp a x = .lt) ++ x :: l.filter fun a => cmp a x = .gt

/-- Remove the value with the key of `x`. -/
def remove (x : α) (l : List α) : List α := l.filter fun a => cmp a x ≠ .eq

variable {cmp} {x v : α} {l r : List α}

variable [TransCmp cmp]

theorem sorted_add (h : Sorted cmp l) : Sorted cmp (add cmp x l) := by
  unfold add
  split
  · exact h
  · apply List.pairwise_append.mpr
    have hgt : ∀ b ∈ l.filter fun a => cmp a x = .gt, cmp x b = .lt := by
      intro b hb
      exact OrientedCmp.lt_of_gt (by simpa using (List.mem_filter.mp hb).2)
    refine ⟨h.filter _, List.pairwise_cons.mpr ⟨hgt, h.filter _⟩, fun a ha b hb => ?_⟩
    have hlt : cmp a x = .lt := by simpa using (List.mem_filter.mp ha).2
    rcases List.mem_cons.mp hb with rfl | hb
    · exact hlt
    · exact TransCmp.lt_trans hlt (hgt b hb)

/-- The two sides of a value. -/
lemma sorted_middle : Sorted cmp (l ++ v :: r) ↔
    Sorted cmp l ∧ Sorted cmp r ∧ (∀ a ∈ l, cmp a v = .lt) ∧ ∀ b ∈ r, cmp v b = .lt := by
  constructor
  · intro h
    obtain ⟨hl, hr, hlr⟩ := List.pairwise_append.mp h
    obtain ⟨hv, hr⟩ := List.pairwise_cons.mp hr
    exact ⟨hl, hr, fun a ha => hlr a ha v (.head _), hv⟩
  · rintro ⟨hl, hr, hlv, hvr⟩
    refine List.pairwise_append.mpr ⟨hl, List.pairwise_cons.mpr ⟨hvr, hr⟩, fun a ha b hb => ?_⟩
    rcases List.mem_cons.mp hb with rfl | hb
    · exact hlv a ha
    · exact TransCmp.lt_trans (hlv a ha) (hvr b hb)

/-- The values from a greater one on are greater. -/
lemma gt_of_middle (h : Sorted cmp (l ++ v :: r)) (hx : cmp v x = .gt) :
    ∀ b ∈ v :: r, cmp b x = .gt := by
  intro b hb
  rcases List.mem_cons.mp hb with rfl | hb
  · exact hx
  · exact TransCmp.gt_trans (OrientedCmp.gt_of_lt ((sorted_middle.mp h).2.2.2 b hb)) hx

/-- The values up to a lower one are lower. -/
lemma lt_of_middle (h : Sorted cmp (l ++ v :: r)) (hx : cmp v x = .lt) :
    ∀ a ∈ l ++ [v], cmp a x = .lt := by
  intro a ha
  rcases List.mem_append.mp ha with ha | ha
  · exact TransCmp.lt_trans ((sorted_middle.mp h).2.2.1 a ha) hx
  · rw [List.mem_singleton.mp ha]
    exact hx

omit [TransCmp cmp] in
lemma find_append (l r : List α) : find cmp x (l ++ r) = (find cmp x l).or (find cmp x r) :=
  List.find?_append ..

omit [TransCmp cmp] in
/-- No value of a list has the key. -/
lemma find_none {o : Ordering} (ho : o ≠ .eq) (h : ∀ a ∈ l, cmp a x = o) :
    find cmp x l = none := by
  apply List.find?_eq_none.mpr
  intro a ha
  simpa [h a ha] using ho

section

variable (h : Sorted cmp (l ++ v :: r))
include h

theorem find_of_gt (hx : cmp v x = .gt) :
    find cmp x (l ++ v :: r) = find cmp x l := by
  rw [find_append, find_none (by decide) (gt_of_middle h hx), Option.or_none]

lemma find_of_lt (hx : cmp v x = .lt) :
    find cmp x (l ++ v :: r) = find cmp x r := by
  rw [List.append_cons, find_append, find_none (by decide) (lt_of_middle h hx),
    Option.none_or]

lemma find_of_eq (hx : cmp v x = .eq) :
    find cmp x (l ++ v :: r) = some v := by
  have hlt : ∀ a ∈ l, cmp a x = .lt := fun a ha =>
    TransCmp.lt_of_lt_of_eq ((sorted_middle.mp h).2.2.1 a ha) hx
  rw [find_append, find_none (by decide) hlt, Option.none_or]
  simp [find, hx]

theorem add_of_gt (hx : cmp v x = .gt) :
    add cmp x (l ++ v :: r) = add cmp x l ++ v :: r := by
  have hgt := gt_of_middle h hx
  have hlow : (v :: r).filter (fun a => cmp a x = .lt) = [] :=
    List.filter_eq_nil_iff.mpr fun a ha => by simp [hgt a ha]
  have hhigh : (v :: r).filter (fun a => cmp a x = .gt) = v :: r :=
    List.filter_eq_self.mpr fun a ha => by simp [hgt a ha]
  rw [add, add, find_of_gt h hx]
  split
  · rfl
  · rw [List.filter_append, List.filter_append, hlow, hhigh, List.append_nil, List.append_assoc]
    rfl

lemma add_of_lt (hx : cmp v x = .lt) :
    add cmp x (l ++ v :: r) = l ++ v :: add cmp x r := by
  have hlt := lt_of_middle h hx
  have hlow : (l ++ [v]).filter (fun a => cmp a x = .lt) = l ++ [v] :=
    List.filter_eq_self.mpr fun a ha => by simp [hlt a ha]
  have hhigh : (l ++ [v]).filter (fun a => cmp a x = .gt) = [] :=
    List.filter_eq_nil_iff.mpr fun a ha => by simp [hlt a ha]
  rw [add, add, find_of_lt h hx]
  split
  · rfl
  · rw [List.append_cons l v r, List.filter_append (l ++ [v]), List.filter_append (l ++ [v]), hlow,
      hhigh, List.nil_append, List.append_assoc, List.append_assoc]
    rfl

lemma add_of_eq (hx : cmp v x = .eq) :
    add cmp x (l ++ v :: r) = l ++ v :: r := by
  rw [add, find_of_eq h hx]
  rfl

theorem remove_of_gt (hx : cmp v x = .gt) :
    remove cmp x (l ++ v :: r) = remove cmp x l ++ v :: r := by
  have hgt := gt_of_middle h hx
  have hhigh : (v :: r).filter (fun a => cmp a x ≠ .eq) = v :: r :=
    List.filter_eq_self.mpr fun a ha => by simp [hgt a ha]
  rw [remove, List.filter_append, hhigh]
  rfl

lemma remove_of_lt (hx : cmp v x = .lt) :
    remove cmp x (l ++ v :: r) = l ++ v :: remove cmp x r := by
  have hlt := lt_of_middle h hx
  have hlow : (l ++ [v]).filter (fun a => cmp a x ≠ .eq) = l ++ [v] :=
    List.filter_eq_self.mpr fun a ha => by simp [hlt a ha]
  rw [List.append_cons, remove, List.filter_append, hlow, List.append_assoc]
  rfl

lemma remove_of_eq (hx : cmp v x = .eq) :
    remove cmp x (l ++ v :: r) = l ++ r := by
  obtain ⟨-, -, hlv, hvr⟩ := sorted_middle.mp h
  have hlow : l.filter (fun a => cmp a x ≠ .eq) = l :=
    List.filter_eq_self.mpr fun a ha => by simp [TransCmp.lt_of_lt_of_eq (hlv a ha) hx]
  have hhigh : r.filter (fun a => cmp a x ≠ .eq) = r :=
    List.filter_eq_self.mpr fun b hb => by
      simp [TransCmp.gt_of_gt_of_eq (OrientedCmp.gt_of_lt (hvr b hb)) hx]
  rw [remove, List.filter_append, List.filter_cons, hlow, hhigh, if_neg (by simp [hx])]

end

/-! ## Members -/

omit [TransCmp cmp] in
/-- A new value is one more. -/
lemma add_perm (hnew : find cmp x l = none) : (add cmp x l).Perm (x :: l) := by
  have hne : ∀ a ∈ l, cmp a x ≠ .eq := by simpa [find] using hnew
  have hhigh : l.filter (fun a => cmp a x = .gt) = l.filter (fun a => !decide (cmp a x = .lt)) := by
    apply List.filter_congr
    intro a ha
    have hna := hne a ha
    cases hcmp : cmp a x with
    | lt | gt => rfl
    | eq => exact absurd hcmp hna
  rw [add, hnew, if_neg (by simp), hhigh]
  apply List.perm_middle.trans
  exact (List.filter_append_perm _ l).cons x

omit [TransCmp cmp] in
/-- A value after all others. -/
lemma add_of_all_lt (hlt : ∀ a ∈ l, cmp a x = .lt) : add cmp x l = l ++ [x] := by
  have hnew : find cmp x l = none := find_none (by decide) hlt
  have hlow : l.filter (fun a => cmp a x = .lt) = l :=
    List.filter_eq_self.mpr fun a ha => by simp [hlt a ha]
  have hhigh : l.filter (fun a => cmp a x = .gt) = [] :=
    List.filter_eq_nil_iff.mpr fun a ha => by simp [hlt a ha]
  rw [add, hnew, if_neg (by simp), hlow, hhigh]

/-- No value of an ordered list occurs twice. -/
lemma nodup_of_sorted (h : Sorted cmp l) : l.Nodup := by
  apply h.imp
  rintro a b hlt rfl
  exact absurd (ReflCmp.compare_self.symm.trans hlt) (by decide)

/-- Ordered lists with the same members are equal. -/
lemma eq_of_perm_of_sorted (hl : Sorted cmp l) (hr : Sorted cmp r) (hperm : l.Perm r) :
    l = r := by
  apply hperm.eq_of_pairwise _ hl hr
  intro a b _ _ hab hba
  rw [OrientedCmp.gt_of_lt hab] at hba
  cases hba

/-! ## Neighbours -/

/-- The value next to `x` on its upper side, `.gt`, or on its lower side, `.lt`;
none if there is no value on this side. -/
def Nearest (cmp : α → α → Ordering) (side : Ordering) (l : List α) (x : α) : Option α → Prop
  | none => ∀ a ∈ l, cmp a x ≠ side
  | some y => y ∈ l ∧ cmp y x = side ∧ ∀ a ∈ l, cmp a x = side → a = y ∨ cmp a y = side

/-- The values follow each other towards one side. -/
def Towards (cmp : α → α → Ordering) (side : Ordering) (l : List α) : Prop :=
  l.Pairwise fun a b => cmp b a = side

variable {side : Ordering} {a b c : α}

lemma towards_gt (h : Sorted cmp l) : Towards cmp .gt l := h.imp OrientedCmp.gt_of_lt

omit [TransCmp cmp] in
lemma towards_lt (h : Sorted cmp l) : Towards cmp .lt l.reverse := List.pairwise_reverse.mpr h

omit [TransCmp cmp] in
/-- The first value on one side is the nearest one. -/
lemma nearest_head (h : Towards cmp side l) (x : α) :
    Nearest cmp side l x (l.filter fun a => cmp a x = side).head? := by
  cases hfilter : l.filter fun a => cmp a x = side with
  | nil =>
    intro a ha hside
    have hnone := List.filter_eq_nil_iff.mp hfilter a ha
    simp [hside] at hnone
  | cons y rest =>
    have hrest : Towards cmp side (y :: rest) := hfilter ▸ h.filter _
    have hmem : ∀ a, a ∈ y :: rest ↔ a ∈ l ∧ cmp a x = side := by
      intro a
      rw [← hfilter, List.mem_filter, decide_eq_true_eq]
    rcases (hmem y).mp List.mem_cons_self with ⟨hy, hside⟩
    refine ⟨hy, hside, fun a ha hax => ?_⟩
    rcases List.mem_cons.mp ((hmem a).mpr ⟨ha, hax⟩) with heq | htail
    · exact .inl heq
    · exact .inr ((List.pairwise_cons.mp hrest).1 a htail)

lemma side_trans (hside : side ≠ .eq) (hab : cmp a b = side) (hbc : cmp b c = side) :
    cmp a c = side := by
  cases side with
  | lt => exact TransCmp.lt_trans hab hbc
  | eq => exact absurd rfl hside
  | gt => exact TransCmp.gt_trans hab hbc

lemma side_of_eq (hside : side ≠ .eq) (hab : cmp a b = side) (hbc : cmp b c = .eq) :
    cmp a c = side := by
  cases side with
  | lt => exact TransCmp.lt_of_lt_of_eq hab hbc
  | eq => exact absurd rfl hside
  | gt => exact TransCmp.gt_of_gt_of_eq hab hbc

omit [TransCmp cmp] in
/-- What comes before and behind a value that goes towards one side. -/
lemma towards_middle (h : Towards cmp side (l ++ v :: r)) :
    (∀ a ∈ l, cmp v a = side) ∧ ∀ b ∈ r, cmp b v = side := by
  rcases List.pairwise_append.mp h with ⟨-, hr, hlr⟩
  exact ⟨fun a ha => hlr a ha v (.head _), (List.pairwise_cons.mp hr).1⟩

/-- From a value on the side on, all are on the side. -/
lemma filter_beyond (hside : side ≠ .eq) (h : Towards cmp side (l ++ v :: r))
    (hv : cmp v x = side) : (l ++ v :: r).filter (fun a => cmp a x = side) =
      l.filter (fun a => cmp a x = side) ++ v :: r := by
  have hr : r.filter (fun a => cmp a x = side) = r := by
    apply List.filter_eq_self.mpr
    intro b hb
    exact decide_eq_true (side_trans hside ((towards_middle h).2 b hb) hv)
  rw [List.filter_append, List.filter_cons, hr, if_pos (decide_eq_true hv)]

/-- Up to a value on the other side, none is on the side. -/
lemma filter_before (hside : side ≠ .eq) (h : Towards cmp side (l ++ v :: r))
    (hv : cmp v x = side.swap) : (l ++ v :: r).filter (fun a => cmp a x = side) =
      r.filter fun a => cmp a x = side := by
  have hne : side.swap ≠ side := by
    cases side <;> simp at hside ⊢
  have hl : l.filter (fun a => cmp a x = side) = [] := by
    apply List.filter_eq_nil_iff.mpr
    intro a ha
    have hav : cmp a v = side.swap := by
      rw [← (towards_middle h).1 a ha]
      exact OrientedCmp.eq_swap
    have hax : cmp a x = side.swap := by
      apply side_trans _ hav hv
      cases side <;> simp at hside ⊢
    simp [hax, hne]
  rw [List.filter_append, List.filter_cons, hl, if_neg (by simp [hv, hne]), List.nil_append]

/-- Behind a value with the key, all are on the side. -/
lemma filter_behind (hside : side ≠ .eq) (h : Towards cmp side (l ++ v :: r))
    (hv : cmp v x = .eq) : (l ++ v :: r).filter (fun a => cmp a x = side) = r := by
  have hl : l.filter (fun a => cmp a x = side) = [] := by
    apply List.filter_eq_nil_iff.mpr
    intro a ha
    have hav : cmp a v = side.swap := by
      rw [← (towards_middle h).1 a ha]
      exact OrientedCmp.eq_swap
    have hax : cmp a x = side.swap := by
      apply side_of_eq _ hav hv
      cases side <;> simp at hside ⊢
    cases side <;> simp at hside <;> simp [hax]
  have hr : r.filter (fun a => cmp a x = side) = r := by
    apply List.filter_eq_self.mpr
    intro b hb
    exact decide_eq_true (side_of_eq hside ((towards_middle h).2 b hb) hv)
  rw [List.filter_append, List.filter_cons, hl, hr, if_neg (by simp [hv, Ne.symm hside]),
    List.nil_append]

/-! ## Ranges -/

/-- The values from `low` up to `high`. -/
def between (cmp : α → α → Ordering) (low high : α) (l : List α) : List α :=
  l.filter fun a => cmp a low ≠ .lt ∧ cmp a high ≠ .gt

/-- The value with a key is found from both ends. -/
lemma find_reverse (h : Sorted cmp l) : find cmp x l.reverse = find cmp x l := by
  induction l with
  | nil => rfl
  | cons v l ih =>
    rcases List.pairwise_cons.mp h with ⟨hv, hl⟩
    rw [List.reverse_cons, find_append, ih hl]
    change (find cmp x l).or (find cmp x [v]) = find cmp x ([v] ++ l)
    rw [find_append]
    by_cases heq : cmp v x = .eq
    · have hnone : find cmp x l = none := by
        apply find_none (o := .gt) (by decide)
        intro b hb
        exact TransCmp.gt_of_gt_of_eq (OrientedCmp.gt_of_lt (hv b hb)) heq
      rw [hnone, Option.none_or, Option.or_none]
    · have hnone : find cmp x [v] = none := by
        simp [find, heq]
      rw [hnone, Option.none_or, Option.or_none]

/-- The value with the key, or the nearest one on a side, is the first that is not on the other
side. -/
lemma find_or_nearest (hside : side ≠ .eq) (h : Towards cmp side l) (x : α) :
    (find cmp x l).or (l.filter fun a => cmp a x = side).head? =
      (l.filter fun a => cmp a x ≠ side.swap).head? := by
  induction l with
  | nil => rfl
  | cons v l ih =>
    rcases List.pairwise_cons.mp h with ⟨hv, hl⟩
    have hbefore := ih hl
    rw [find, List.find?_cons]
    by_cases heq : cmp v x = .eq
    · have hkept : cmp v x ≠ side.swap := by
        cases side <;> simp_all
      rw [decide_eq_true heq, Option.some_or, List.filter_cons,
        if_pos (decide_eq_true hkept), List.head?_cons]
    · rw [decide_eq_false heq]
      change (find cmp x l).or _ = _
      by_cases hbeyond : cmp v x = side
      · have hnone : find cmp x l = none := by
          apply find_none hside
          intro b hb
          exact side_trans hside (hv b hb) hbeyond
        have hkept : cmp v x ≠ side.swap := by
          cases side <;> simp_all
        rw [hnone, Option.none_or, List.filter_cons, if_pos (decide_eq_true hbeyond),
          List.filter_cons, if_pos (decide_eq_true hkept), List.head?_cons, List.head?_cons]
      · have hlow : cmp v x = side.swap := by
          cases hcmp : cmp v x <;> cases side <;> simp_all
        rw [List.filter_cons_of_neg (by simpa using hbeyond),
          List.filter_cons_of_neg (by simpa using hlow)]
        exact hbefore

/-- An ordered list has the values below the range, the range, and the values above it. -/
lemma between_split (h : Sorted cmp l) {low high : α} (hle : cmp low high ≠ .gt) :
    l = l.filter (fun a => cmp a low = .lt) ++ l.filter (fun a => cmp a low ≠ .lt) ∧
      l.filter (fun a => cmp a low ≠ .lt) =
        between cmp low high l ++ l.filter (fun a => cmp a high = .gt) ∧
      l.filter (fun a => cmp a high ≠ .gt) =
        l.filter (fun a => cmp a low = .lt) ++ between cmp low high l := by
  have hlow : ∀ a, cmp a low = .lt → cmp a high = .lt := by
    intro a ha
    cases hlh : cmp low high with
    | lt => exact TransCmp.lt_trans ha hlh
    | eq => exact TransCmp.lt_of_lt_of_eq ha hlh
    | gt => exact absurd hlh hle
  constructor
  · have hfront : Front (fun a => decide (cmp a low = .lt)) l := by
      apply h.imp
      intro a b hab hb
      exact decide_eq_true (TransCmp.lt_trans hab (of_decide_eq_true hb))
    apply hfront.filter_append.symm.trans
    congr 1
    apply List.filter_congr
    intro a _
    simp
  constructor
  · have hfront : Front (fun a => decide (cmp a high ≠ .gt))
        (l.filter fun a => cmp a low ≠ .lt) := by
      apply (h.filter _).imp
      intro a b hab hb
      apply decide_eq_true
      intro ha
      exact of_decide_eq_true hb (TransCmp.gt_trans (OrientedCmp.gt_of_lt hab) ha)
    rw [← hfront.filter_append, List.filter_filter, List.filter_filter]
    congr 1
    · apply List.filter_congr
      intro a _
      simp [Bool.and_comm]
    · apply List.filter_congr
      intro a _
      have hne : cmp a high = .gt → cmp a low ≠ .lt := by
        intro ha hal
        rw [hlow a hal] at ha
        cases ha
      by_cases ha : cmp a high = .gt <;> simp [ha, hne]
  · have hfront : Front (fun a => decide (cmp a low = .lt))
        (l.filter fun a => cmp a high ≠ .gt) := by
      apply (h.filter _).imp
      intro a b hab hb
      exact decide_eq_true (TransCmp.lt_trans hab (of_decide_eq_true hb))
    rw [← hfront.filter_append, List.filter_filter, List.filter_filter]
    congr 1
    · apply List.filter_congr
      intro a _
      by_cases ha : cmp a low = .lt <;> simp [ha, hlow]
    · apply List.filter_congr
      intro a _
      simp

end DiegOS.Lib.OrderedList
