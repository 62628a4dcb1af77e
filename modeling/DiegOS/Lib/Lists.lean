import Mathlib.Data.List.Basic
import Mathlib.Data.List.Count
import Mathlib.Tactic.Common

/-!
# Parts of lists

What happens to a filtered list when one element passes the filter that did not pass it before,
and what a test does to a list in which those that pass it stand in front.

Main results:

- Theorem `filter_insert`: the filtered list has one element more.
- Theorem `flatMap_middle`: what one element adds to a list of lists.
- Theorem `countP_not_add_length`: the elements that pass a filter and those that do not.
- Theorem `pairwise_place`: an element that is put behind those that pass a test.
-/

namespace DiegOS.Lib

variable {α : Type} {l : List α} {a : α} {p q : α → Bool}

/-- One more element passes the filter. -/
theorem filter_insert (hnodup : l.Nodup) (ha : a ∈ l) (hp : p a = false) (hq : q a = true)
    (hother : ∀ b ∈ l, b ≠ a → q b = p b) : (l.filter q).Perm (a :: l.filter p) := by
  obtain ⟨pre, suf, rfl⟩ := List.append_of_mem ha
  have hpre : pre.filter q = pre.filter p := by
    apply List.filter_congr
    intro b hb
    apply hother b (List.mem_append_left _ hb)
    rintro rfl
    exact (List.nodup_append.mp hnodup).2.2 b hb b List.mem_cons_self rfl
  have hsuf : suf.filter q = suf.filter p := by
    apply List.filter_congr
    intro b hb
    apply hother b (List.mem_append_right _ (List.mem_cons_of_mem a hb))
    rintro rfl
    exact (List.nodup_cons.mp (List.nodup_append.mp hnodup).2.1).1 hb
  rw [List.filter_append, List.filter_append, List.filter_cons_of_pos hq,
    List.filter_cons_of_neg (by rw [hp]; exact Bool.false_ne_true), hpre, hsuf]
  exact List.perm_middle

/-- The elements that pass a filter and those that do not. -/
theorem countP_not_add_length (p : α → Bool) (l : List α) :
    l.countP (fun a => !p a) + (l.filter p).length = l.length := by
  rw [← List.countP_eq_length_filter, Nat.add_comm, List.length_eq_countP_add_countP p]
  congr 2
  ext1 a
  cases p a <;> rfl

/-- What one element adds to a list of lists. -/
theorem flatMap_middle {β : Type} (f : α → List β) (pre suf : List α) (a : α) :
    ((pre ++ a :: suf).flatMap f).Perm (f a ++ (pre ++ suf).flatMap f) := by
  have hmove : (pre ++ a :: suf).Perm (a :: (pre ++ suf)) := List.perm_middle
  exact hmove.flatMap_right f

/-! ## A test that holds at the front -/

/-- Those that pass the test stand in front. -/
def Front (p : α → Bool) (l : List α) : Prop := l.Pairwise fun a b => p b = true → p a = true

lemma Front.takeWhile_append (h : Front p l) :
    l.takeWhile p = l.filter p ∧ l.dropWhile p = l.filter fun a => !p a := by
  induction l with
  | nil => exact ⟨rfl, rfl⟩
  | cons a l ih =>
    obtain ⟨hhead, htail⟩ := List.pairwise_cons.mp h
    cases ha : p a with
    | true =>
      obtain ⟨htake, hdrop⟩ := ih htail
      rw [List.takeWhile_cons_of_pos ha, List.dropWhile_cons_of_pos ha, htake, hdrop]
      simp [ha]
    | false =>
      have hnone : ∀ b ∈ l, p b = false := by
        intro b hb
        cases hpb : p b with
        | false => rfl
        | true => exact (hhead b hb hpb).symm.trans ha
      constructor
      · rw [List.takeWhile_cons_of_neg (by simp [ha])]
        simpa [ha] using hnone
      · rw [List.dropWhile_cons_of_neg (by simp [ha]), eq_comm]
        simpa [ha] using hnone

lemma Front.takeWhile_eq (h : Front p l) : l.takeWhile p = l.filter p := h.takeWhile_append.1

lemma Front.dropWhile_eq (h : Front p l) : l.dropWhile p = l.filter fun a => !p a :=
  h.takeWhile_append.2

lemma Front.filter_append (h : Front p l) : l.filter p ++ l.filter (fun a => !p a) = l := by
  rw [← h.takeWhile_eq, ← h.dropWhile_eq, List.takeWhile_append_dropWhile]

/-- An element that is put behind those that pass a test keeps an order. -/
theorem pairwise_place {R : α → α → Prop} (h : l.Pairwise R) (hfront : Front p l)
    (hbefore : ∀ b ∈ l, p b = true → R b a) (hbehind : ∀ b ∈ l, p b = false → R a b) :
    (l.takeWhile p ++ a :: l.dropWhile p).Pairwise R := by
  have hsplit : l.takeWhile p ++ l.dropWhile p = l := List.takeWhile_append_dropWhile
  rw [← hsplit] at h
  obtain ⟨htake, hdrop, hcross⟩ := List.pairwise_append.mp h
  refine List.pairwise_append.mpr ⟨htake, List.pairwise_cons.mpr ⟨fun b hb => ?_, hdrop⟩,
    fun b hb c hc => ?_⟩
  · rw [hfront.dropWhile_eq, List.mem_filter] at hb
    exact hbehind b hb.1 (by simpa using hb.2)
  · rcases List.mem_cons.mp hc with rfl | hc
    · rw [hfront.takeWhile_eq, List.mem_filter] at hb
      exact hbefore b hb.1 hb.2
    · exact hcross b hb c hc

end DiegOS.Lib
