import Mathlib.Data.List.Rotate
import Mathlib.Data.List.Perm.Basic

/-!
# Scans of a rolling list

A loop looks at the head of a list, takes it out if it is marked, and then moves the head to
the end.  Behind an element that was taken out this moves one that the loop has not looked at.

Main results:

- Theorem `RollingScan.left_isRotated`: the elements that are not marked keep their
  cyclic order.
- Theorem `RollingScan.moved_eq_iff`: as many looks as there are elements take out the
  marked ones in their order exactly if no two neighbours are marked, but for the last two.
-/

namespace DiegOS.Lib.RollingScan

variable {α : Type}

/-- Move the head to the end. -/
def roll : List α → List α
  | [] => []
  | x :: l => l ++ [x]

/-- One turn of the loop. -/
def turn (p : α → Bool) : List α → List α
  | [] => []
  | x :: l => roll (if p x then l else x :: l)

/-- The elements looked at in some turns. -/
def looks (p : α → Bool) : Nat → List α → List α
  | 0, _ => []
  | n + 1, l => l.head?.toList ++ looks p n (turn p l)

/-- What is left after some turns. -/
def left (p : α → Bool) : Nat → List α → List α
  | 0, l => l
  | n + 1, l => left p n (turn p l)

/-- The elements taken out. -/
def moved (p : α → Bool) (n : Nat) (l : List α) : List α := (looks p n l).filter p

/-- No two neighbours are marked. -/
def Apart (p : α → Bool) : List α → Prop
  | [] => True
  | [_] => True
  | x :: y :: l => ¬(p x = true ∧ p y = true) ∧ Apart p (y :: l)

/-- No two neighbours are marked, unless they are the last marked ones and marked elements
alternate with others in front of them. -/
def Spread (p : α → Bool) : List α → Prop
  | [] => True
  | [_] => True
  | x :: y :: l =>
    if p x = true then if p y = true then ∀ z ∈ l, p z = false else Spread p l
    else Apart p (y :: l)

section Turns

variable {p : α → Bool} {n : Nat} {x : α} {l : List α}

lemma roll_isRotated : ∀ l : List α, roll l ~r l
  | [] => List.IsRotated.refl _
  | x :: l => by
      rw [roll, ← List.singleton_append]
      exact List.isRotated_append

lemma turn_cons_of (hx : p x = true) : turn p (x :: l) = roll l := by simp [turn, hx]

lemma turn_cons_of_not (hx : p x = false) : turn p (x :: l) = l ++ [x] := by
  simp [turn, hx, roll]

lemma moved_cons_of (hx : p x = true) :
    moved p (n + 1) (x :: l) = x :: moved p n (roll l) := by
  simp [moved, looks, turn_cons_of hx, hx]

lemma moved_cons_of_not (hx : p x = false) :
    moved p (n + 1) (x :: l) = moved p n (l ++ [x]) := by
  simp [moved, looks, turn_cons_of_not hx, hx]

/-- Rolling does not disturb the cyclic order of some of the elements. -/
lemma isRotated_filter_roll : ∀ l : List α, (roll l).filter p ~r l.filter p
  | [] => List.IsRotated.refl _
  | x :: l => by
    change (l ++ [x]).filter p ~r ([x] ++ l).filter p
    rw [List.filter_append, List.filter_append]
    exact List.isRotated_append

/-- The others keep their cyclic order. -/
theorem left_isRotated (n : Nat) : ∀ l : List α,
    (left p n l).filter (fun x => !p x) ~r l.filter fun x => !p x := by
  induction n with
  | zero => exact fun l => List.IsRotated.refl _
  | succ n ih =>
    intro l
    refine (ih (turn p l)).trans ?_
    cases l with
    | nil => exact List.IsRotated.refl _
    | cons x l =>
      cases hx : p x with
      | true =>
        rw [turn_cons_of hx, List.filter_cons_of_neg (by simp [hx])]
        exact isRotated_filter_roll l
      | false =>
        rw [turn_cons_of_not hx]
        exact isRotated_filter_roll (x :: l)

/-- Every element is taken out once or left. -/
lemma moved_append_left (n : Nat) : ∀ l : List α, (moved p n l ++ left p n l).Perm l := by
  induction n with
  | zero => exact fun l => List.Perm.refl _
  | succ n ih =>
    intro l
    cases l with
    | nil => exact ih []
    | cons x l =>
      cases hx : p x with
      | true =>
        have hrest := ih (roll l)
        rw [moved_cons_of hx, left, turn_cons_of hx, List.cons_append]
        exact (hrest.trans (roll_isRotated l).perm).cons x
      | false =>
        have hrest := ih (l ++ [x])
        rw [moved_cons_of_not hx, left, turn_cons_of_not hx]
        exact hrest.trans (roll_isRotated (x :: l)).perm

lemma mem_of_mem_moved {z : α} (h : z ∈ moved p n l) : z ∈ l :=
  (moved_append_left n l).mem_iff.mp (List.mem_append_left _ h)

lemma moved_cons : moved p (n + 1) (x :: l) =
    if p x = true then x :: moved p n (turn p (x :: l)) else moved p n (turn p (x :: l)) := by
  unfold moved
  rw [looks, List.head?_cons, Option.toList_some, List.singleton_append, List.filter_cons]

lemma looks_cons : looks p (n + 1) (x :: l) = x :: looks p n (turn p (x :: l)) := rfl

lemma mem_of_mem_looks (n : Nat) : ∀ {l : List α} {z : α}, z ∈ looks p n l → z ∈ l := by
  induction n with
  | zero => simp [looks]
  | succ n ih =>
    intro l z hz
    cases l with
    | nil => exact ih hz
    | cons x l =>
      rw [looks_cons] at hz
      rcases List.mem_cons.mp hz with rfl | hz
      · exact List.mem_cons_self ..
      · have hturn := ih hz
        cases hx : p x with
        | true =>
          rw [turn_cons_of hx, (roll_isRotated l).perm.mem_iff] at hturn
          exact List.mem_cons_of_mem x hturn
        | false =>
          rw [turn_cons_of_not hx] at hturn
          exact (roll_isRotated (x :: l)).perm.mem_iff.mp hturn

/-- What is not marked is left. -/
lemma mem_left {n : Nat} {z : α} (hz : z ∈ l) (hp : p z = false) : z ∈ left p n l := by
  have hmem := (moved_append_left (p := p) n l).mem_iff.mpr hz
  refine (List.mem_append.mp hmem).resolve_left fun hmoved => ?_
  rw [(List.mem_filter.mp hmoved).2] at hp
  contradiction

/-- What is not looked at is left. -/
lemma mem_left_of_not_looks {n : Nat} {z : α} (hz : z ∈ l) (hlooks : z ∉ looks p n l) :
    z ∈ left p n l := by
  have hmem := (moved_append_left (p := p) n l).mem_iff.mpr hz
  refine (List.mem_append.mp hmem).resolve_left fun hmoved => ?_
  exact hlooks (List.mem_filter.mp hmoved).1

/-- What is left was there, and is not marked if it was looked at. -/
lemma of_mem_left {n : Nat} {z : α} (hnodup : l.Nodup) (hz : z ∈ left p n l) :
    z ∈ l ∧ (z ∈ looks p n l → p z = false) := by
  have hperm := moved_append_left (p := p) n l
  refine ⟨hperm.mem_iff.mp (List.mem_append_right _ hz), fun hlooks => ?_⟩
  cases hp : p z with
  | false => rfl
  | true =>
    have hmoved : z ∈ moved p n l := List.mem_filter.mpr ⟨hlooks, hp⟩
    exact absurd hz (List.disjoint_of_nodup_append (hperm.nodup_iff.mpr hnodup) hmoved)

/-- Nothing is taken out as long as no marked element is met. -/
lemma moved_append_of_le (m : List α) : ∀ {n : Nat} {l : List α}, (∀ z ∈ m, p z = false) →
    n ≤ m.length → moved p n (m ++ l) = [] := by
  induction m with
  | nil =>
    intro n l _ hn
    obtain rfl : n = 0 := Nat.le_zero.mp hn
    rfl
  | cons x m ih =>
    intro n l hm hn
    cases n with
    | zero => rfl
    | succ n =>
      rw [List.cons_append, moved_cons_of_not (hm x (by simp)), List.append_assoc]
      exact ih (fun z hz => hm z (by simp [hz])) (Nat.le_of_succ_le_succ hn)

/-- The first marked element is the first one taken out. -/
lemma moved_append_cons (m : List α) : ∀ {n : Nat} {l : List α}, (∀ z ∈ m, p z = false) →
    p x = true → moved p (m.length + (n + 1)) (m ++ x :: l) =
      x :: moved p n (roll (l ++ m)) := by
  induction m with
  | nil =>
    intro n l _ hx
    rw [List.length_nil, Nat.zero_add, List.nil_append, moved_cons_of hx, List.append_nil]
  | cons y m ih =>
    intro n l hm hx
    have hlength : (y :: m).length + (n + 1) = m.length + (n + 1) + 1 := by
      rw [List.length_cons]
      omega
    rw [hlength, List.cons_append, moved_cons_of_not (hm y (by simp)), List.append_assoc,
      List.cons_append, ih (fun z hz => hm z (by simp [hz])) hx, List.append_assoc]
    rfl

/-- Without marked elements nothing is taken out. -/
lemma moved_eq_nil (n : Nat) : ∀ {l : List α}, (∀ z ∈ l, p z = false) → moved p n l = [] := by
  induction n with
  | zero => exact fun _ => rfl
  | succ n ih =>
    intro l hl
    cases l with
    | nil => exact ih hl
    | cons x l =>
      rw [moved_cons_of_not (hl x (by simp))]
      apply ih
      intro z hz
      exact hl z (by simpa [or_comm] using hz)

end Turns

/-! ## The order of the marked elements -/

section Order

variable {p : α → Bool} {x y : α} {l v : List α}

/-- The next marked element of the list comes in front of one that was moved to the end. -/
lemma moved_ne_of_mem {n : Nat} {m : List α} (hn : l.length < n) (hy : y ∉ l)
    (hdue : ∃ z ∈ l, p z = true) : moved p n (l ++ v) ≠ y :: m := by
  obtain ⟨z, hz⟩ := Option.isSome_iff_exists.mp (List.find?_isSome.mpr hdue)
  obtain ⟨hpz, a, b, rfl, ha⟩ := List.find?_eq_some_iff_append.mp hz
  have ha' : ∀ i ∈ a, p i = false := by simpa using ha
  obtain ⟨k, rfl⟩ : ∃ k, n = a.length + (k + 1) := by
    rw [List.length_append] at hn
    exact ⟨n - a.length - 1, by omega⟩
  rw [List.append_assoc, List.cons_append, moved_append_cons a ha' hpz]
  intro heq
  obtain rfl : z = y := (List.cons.inj heq).1
  exact hy (by simp)

lemma apart_cons_of_not (hx : p x = false) : Apart p (x :: l) ↔ Apart p l := by
  cases l with
  | nil => simp [Apart]
  | cons y l => simp [Apart, hx]

lemma unmarked_append (hv : ∀ z ∈ v, p z = false) (hx : p x = false) :
    ∀ z ∈ v ++ [x], p z = false := by
  intro z hz
  rcases List.mem_append.mp hz with hz | hz
  · exact hv z hz
  · rw [List.mem_singleton.mp hz]
    exact hx

/-- The turns and the list behind the removal of the head. -/
lemma after_first {c : Nat} (hnodup : (x :: y :: l ++ v).Nodup) :
    (y :: l).length + c = l.length + (c + 1) ∧ roll (y :: l ++ v) = l ++ (v ++ [y]) ∧
      (l ++ (v ++ [y])).Nodup := by
  refine ⟨by rw [List.length_cons]; omega, List.append_assoc l v [y], ?_⟩
  rw [← List.append_assoc]
  exact (List.perm_append_singleton y (l ++ v)).nodup_iff.mpr (List.nodup_cons.mp hnodup).2

lemma not_mem_rest (hnodup : (x :: y :: l ++ v).Nodup) : y ∉ l := by
  have htail := (List.nodup_cons.mp (List.nodup_cons.mp hnodup).2).1
  exact fun hmem => htail (List.mem_append_left v hmem)

/-- Once more elements stayed than were taken out, no two marked neighbours come out in
their order. -/
lemma moved_eq_iff_apart (k : Nat) : ∀ (l v : List α) (c : Nat), l.length ≤ k →
    (∀ z ∈ v, p z = false) → (l ++ v).Nodup → c < v.length →
    (moved p (l.length + c) (l ++ v) = l.filter p ↔ Apart p l) := by
  induction k with
  | zero =>
    intro l v c hk hv _ _
    obtain rfl := List.length_eq_zero_iff.mp (Nat.le_zero.mp hk)
    simp [moved_eq_nil _ hv, Apart]
  | succ k ih =>
    intro l v c hk hv hnodup hc
    cases l with
    | nil => simp [moved_eq_nil _ hv, Apart]
    | cons x l =>
      have hlength : (x :: l).length + c = l.length + c + 1 := by
        rw [List.length_cons]
        omega
      have hperm : (l ++ (v ++ [x])).Nodup := by
        rw [← List.append_assoc]
        exact (List.perm_append_singleton x (l ++ v)).nodup_iff.mpr hnodup
      rw [hlength, List.cons_append]
      cases hx : p x with
      | false =>
        have hrest := ih l (v ++ [x]) c (Nat.le_of_succ_le_succ hk)
          (unmarked_append hv hx) hperm (by simp; omega)
        rw [moved_cons_of_not hx, List.append_assoc, List.filter_cons_of_neg (by simp [hx]),
          apart_cons_of_not hx]
        exact hrest
      | true =>
        rw [moved_cons_of hx, List.filter_cons_of_pos hx, List.cons_inj_right]
        cases l with
        | nil =>
          have hroll : ∀ z ∈ roll v, p z = false := fun z hz =>
            hv z ((roll_isRotated v).perm.mem_iff.mp hz)
          simp [moved_eq_nil _ hroll, Apart]
        | cons y l =>
          obtain ⟨hturns, hroll, hnodup'⟩ := after_first (c := c) hnodup
          rw [hturns, hroll]
          cases hy : p y with
          | false =>
            have hrest := ih l (v ++ [y]) (c + 1) (by simp at hk; omega)
              (unmarked_append hv hy) hnodup' (by simp; omega)
            rw [List.filter_cons_of_neg (by simp [hy]), hrest]
            simp [Apart, hy, apart_cons_of_not hy]
          | true =>
            rw [List.filter_cons_of_pos hy]
            refine iff_of_false ?_ (by simp [Apart, hx, hy])
            by_cases hdue : ∃ z ∈ l, p z = true
            · exact moved_ne_of_mem (by omega) (not_mem_rest hnodup) hdue
            · have hnone : ∀ z ∈ l ++ v, p z = false := by
                intro z hz
                rcases List.mem_append.mp hz with hz | hz
                · exact Bool.eq_false_iff.mpr fun hpz => hdue ⟨z, hz, hpz⟩
                · exact hv z hz
              have hle : l.length + (c + 1) ≤ (l ++ v).length := by
                rw [List.length_append]
                omega
              rw [← List.append_assoc, moved_append_of_le _ hnone hle]
              simp

/-- As long as as many elements stayed as were taken out, the last two marked ones may be
neighbours. -/
lemma moved_eq_iff_spread (k : Nat) : ∀ (l v : List α), l.length ≤ k →
    (∀ z ∈ v, p z = false) → (l ++ v).Nodup →
    (moved p (l.length + v.length) (l ++ v) = l.filter p ↔ Spread p l) := by
  induction k with
  | zero =>
    intro l v hk hv _
    obtain rfl := List.length_eq_zero_iff.mp (Nat.le_zero.mp hk)
    simp [moved_eq_nil _ hv, Spread]
  | succ k ih =>
    intro l v hk hv hnodup
    cases l with
    | nil => simp [moved_eq_nil _ hv, Spread]
    | cons x l =>
      have hlength : (x :: l).length + v.length = l.length + v.length + 1 := by
        rw [List.length_cons]
        omega
      have hperm : (l ++ (v ++ [x])).Nodup := by
        rw [← List.append_assoc]
        exact (List.perm_append_singleton x (l ++ v)).nodup_iff.mpr hnodup
      rw [hlength, List.cons_append]
      cases hx : p x with
      | false =>
        have hrest := moved_eq_iff_apart l.length l (v ++ [x]) v.length le_rfl
          (unmarked_append hv hx) hperm (by simp)
        rw [moved_cons_of_not hx, List.append_assoc, List.filter_cons_of_neg (by simp [hx]),
          hrest]
        cases l with
        | nil => simp [Apart, Spread]
        | cons y l => simp [Spread, hx]
      | true =>
        rw [moved_cons_of hx, List.filter_cons_of_pos hx, List.cons_inj_right]
        cases l with
        | nil =>
          have hroll : ∀ z ∈ roll v, p z = false := fun z hz =>
            hv z ((roll_isRotated v).perm.mem_iff.mp hz)
          simp [moved_eq_nil _ hroll, Spread]
        | cons y l =>
          obtain ⟨hturns, hroll, hnodup'⟩ := after_first (c := v.length) hnodup
          rw [hturns, hroll]
          cases hy : p y with
          | false =>
            have hrest := ih l (v ++ [y]) (by simp at hk; omega)
              (unmarked_append hv hy) hnodup'
            rw [List.length_append, List.length_singleton] at hrest
            rw [List.filter_cons_of_neg (by simp [hy]), hrest]
            simp [Spread, hx, hy]
          | true =>
            rw [List.filter_cons_of_pos hy]
            by_cases hdue : ∃ z ∈ l, p z = true
            · refine iff_of_false
                (moved_ne_of_mem (by omega) (not_mem_rest hnodup) hdue) ?_
              obtain ⟨z, hz, hpz⟩ := hdue
              simp only [Spread, hx, hy, if_true]
              exact fun hnone => Bool.false_ne_true ((hnone z hz).symm.trans hpz)
            · have hl : ∀ z ∈ l, p z = false := fun z hz =>
                Bool.eq_false_iff.mpr fun hpz => hdue ⟨z, hz, hpz⟩
              have hnone : ∀ z ∈ l ++ v, p z = false := by
                intro z hz
                exact (List.mem_append.mp hz).elim (hl z) (hv z)
              have hsum : l.length + (v.length + 1) = (l ++ v).length + (0 + 1) := by
                rw [List.length_append]
                omega
              have hfilter : l.filter p = [] := by simpa using hl
              rw [← List.append_assoc, hsum, moved_append_cons _ hnone hy, hfilter]
              simpa [Spread, hx, hy, moved, looks] using hl

end Order

/-- As many turns as there are elements take the marked ones out in their order exactly if they
are spread. -/
theorem moved_eq_iff {p : α → Bool} {l : List α} (hnodup : l.Nodup) :
    moved p l.length l = l.filter p ↔ Spread p l := by
  have h := moved_eq_iff_spread (p := p) l.length l [] le_rfl (by simp) (by simpa)
  simpa using h

end DiegOS.Lib.RollingScan
