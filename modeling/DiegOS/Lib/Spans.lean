import Mathlib.Algebra.BigOperators.Group.List.Basic
import Mathlib.Algebra.GroupWithZero.Nat
import Mathlib.Data.List.Basic
import Mathlib.Tactic.Common

/-!
# Spans of memory

A span is an address and a size.  Lists of spans that follow each other are ordered and do
not overlap.

Main results:

- Theorem `Ordered.apart`: spans that follow each other do not overlap.
- Theorem `Ordered.concat`: a span behind the last one is behind all of them.
-/

namespace DiegOS.Lib

/-- A part of the memory. -/
structure Span where
  pointer : Nat
  size : Nat
deriving DecidableEq

namespace Span

/-- The first address behind a span. -/
def stop (a : Span) : Nat := a.pointer + a.size

/-- The second span is behind the first one. -/
def Before (a b : Span) : Prop := a.stop ≤ b.pointer

/-- The spans do not overlap. -/
def Apart (a b : Span) : Prop := a.Before b ∨ b.Before a

/-- The span lies between two addresses. -/
def Inside (a : Span) (low high : Nat) : Prop := low ≤ a.pointer ∧ a.stop ≤ high

instance (a b : Span) : Decidable (a.Before b) := inferInstanceAs (Decidable (_ ≤ _))

instance (a b : Span) : Decidable (a.Apart b) := inferInstanceAs (Decidable (_ ∨ _))

instance (a : Span) (low high : Nat) : Decidable (a.Inside low high) :=
  inferInstanceAs (Decidable (_ ∧ _))

variable {a b c : Span}

lemma Apart.symm (h : a.Apart b) : b.Apart a := Or.symm h

lemma Before.trans (hab : a.Before b) (hbc : b.Before c) : a.Before c := by
  have hstop : b.pointer ≤ b.stop := Nat.le_add_right ..
  exact Nat.le_trans hab (Nat.le_trans hstop hbc)

/-- Spans that are not empty and follow each other have ordered addresses. -/
lemma Before.pointer_lt (h : a.Before b) (hsize : 0 < a.size) : a.pointer < b.pointer := by
  have hstop : a.pointer < a.stop := Nat.lt_add_of_pos_right hsize
  exact Nat.lt_of_lt_of_le hstop h

/-- The spans of a list follow each other. -/
def Ordered (l : List Span) : Prop := l.Pairwise Before

variable {l : List Span}

theorem Ordered.apart (h : Ordered l) : l.Pairwise Apart := h.imp .inl

/-- A span behind the last one is behind all of them. -/
theorem Ordered.concat (h : Ordered l) (hlast : ∀ a ∈ l.getLast?, a.Before b) :
    Ordered (l ++ [b]) := by
  rcases List.eq_nil_or_concat l with rfl | ⟨l, a, rfl⟩
  · exact List.pairwise_singleton ..
  · have hab : a.Before b := hlast a (by simp)
    rw [List.concat_eq_append] at h ⊢
    apply List.pairwise_append.mpr
    refine ⟨h, List.pairwise_singleton .., fun c hc d hd => ?_⟩
    rw [List.mem_singleton.mp hd]
    rcases List.mem_append.mp hc with hc | hc
    · exact ((List.pairwise_append.mp h).2.2 c hc a (List.mem_singleton_self a)).trans hab
    · rw [List.mem_singleton.mp hc]
      exact hab

/-- Spans that are not empty and follow each other have different addresses. -/
lemma Ordered.sorted (h : Ordered l) (hsize : ∀ a ∈ l, 0 < a.size) :
    l.Pairwise fun a b => a.pointer < b.pointer := by
  apply h.imp_of_mem
  intro a b ha _ hab
  exact hab.pointer_lt (hsize a ha)

/-- The memory that spans take. -/
def total (l : List Span) : Nat := (l.map size).sum

@[simp] lemma total_nil : total [] = 0 := rfl

@[simp] lemma total_cons (a : Span) (l : List Span) : total (a :: l) = a.size + total l := rfl

lemma total_append (l l' : List Span) : total (l ++ l') = total l + total l' := by
  rw [total, List.map_append, List.sum_append]
  rfl

lemma total_perm {l' : List Span} (h : l.Perm l') : total l = total l' :=
  (h.map size).sum_eq

/-- Spans that follow each other take at most the memory around them. -/
lemma Ordered.total_le (h : Ordered l) {low high : Nat} (hle : low ≤ high)
    (hinside : ∀ a ∈ l, a.Inside low high) : low + total l ≤ high := by
  induction l generalizing low with
  | nil => exact hle
  | cons a l ih =>
    obtain ⟨hfirst, hrest⟩ := List.pairwise_cons.mp h
    obtain ⟨hlow, hhigh⟩ := hinside a (.head _)
    have hstop : a.stop + total l ≤ high := by
      apply ih hrest hhigh
      intro b hb
      exact ⟨hfirst b hb, (hinside b (List.mem_cons_of_mem a hb)).2⟩
    have hsize : low + a.size ≤ a.stop := Nat.add_le_add_right hlow _
    rw [total_cons]
    omega

/-- The spans follow each other without a gap from one address to another. -/
def Adjacent (low : Nat) : List Span → Nat → Prop
  | [], high => low = high
  | a :: l, high => a.pointer = low ∧ Adjacent a.stop l high

lemma adjacent_append {l' : List Span} {low high : Nat} : Adjacent low (l ++ l') high ↔
    ∃ mid, Adjacent low l mid ∧ Adjacent mid l' high := by
  induction l generalizing low with
  | nil => simp [Adjacent]
  | cons a l ih =>
    rw [List.cons_append, Adjacent, ih]
    constructor
    · rintro ⟨hptr, mid, hl, hl'⟩
      exact ⟨mid, ⟨hptr, hl⟩, hl'⟩
    · rintro ⟨mid, ⟨hptr, hl⟩, hl'⟩
      exact ⟨hptr, mid, hl, hl'⟩

/-- A further span at the end. -/
theorem Adjacent.concat {low high : Nat} (h : Adjacent low l high) (size : Nat) :
    Adjacent low (l ++ [⟨high, size⟩]) (high + size) :=
  adjacent_append.mpr ⟨high, h, rfl, rfl⟩

lemma Adjacent.total_eq {low high : Nat} (h : Adjacent low l high) : low + total l = high := by
  induction l generalizing low with
  | nil => exact h
  | cons a l ih =>
    obtain ⟨rfl, hl⟩ := h
    rw [total_cons, ← Nat.add_assoc]
    exact ih hl

lemma Adjacent.inside {low high : Nat} (h : Adjacent low l high) :
    ∀ a ∈ l, a.Inside low high := by
  induction l generalizing low with
  | nil => exact fun _ ha => absurd ha List.not_mem_nil
  | cons a l ih =>
    obtain ⟨rfl, hl⟩ := h
    have hstop : a.pointer ≤ a.stop := Nat.le_add_right ..
    have htotal := hl.total_eq
    intro b hb
    rcases List.mem_cons.mp hb with rfl | hb
    · exact ⟨Nat.le_refl _, by omega⟩
    · obtain ⟨hlow, hhigh⟩ := ih hl b hb
      exact ⟨Nat.le_trans hstop hlow, hhigh⟩

lemma Adjacent.ordered {low high : Nat} (h : Adjacent low l high) : Ordered l := by
  induction l generalizing low with
  | nil => exact List.Pairwise.nil
  | cons a l ih =>
    obtain ⟨rfl, hl⟩ := h
    exact List.pairwise_cons.mpr ⟨fun b hb => (hl.inside b hb).1, ih hl⟩

end Span
end DiegOS.Lib
